import ScriptContainer.Document.Reading
import ScriptContainer.Proofs.Fields

/-!
# Instructions that are read back

An instruction is read as it was written exactly if its value is not nested more deeply than a reader
goes.
-/

namespace ScriptContainer

open Json Number

namespace Json

mutual

/-- How many arrays and objects a value has inside each other at most, itself included. -/
def height : Json → Nat
  | null | bool _ | number _ | string _ => 0
  | array items => itemsHeight items + 1
  | object members => membersHeight members + 1

def Member.height : Member → Nat
  | ⟨_, value⟩ => Json.height value

/-- The greatest height of an item. -/
def itemsHeight : List Json → Nat
  | [] => 0
  | item :: items => max (height item) (itemsHeight items)

/-- The greatest height of a member. -/
def membersHeight : List Member → Nat
  | [] => 0
  | member :: members => max member.height (membersHeight members)

end

lemma itemsHeight_le_iff {items : List Json} {levels : Nat} :
    itemsHeight items ≤ levels ↔ ∀ item ∈ items, item.height ≤ levels := by
  induction items with
  | nil => simp [itemsHeight]
  | cons item items ih => rw [itemsHeight, Nat.max_le, ih, List.forall_mem_cons]

lemma allSound_iff {items : List Json} {levels : Nat} :
    allSound levels items = true ↔ ∀ item ∈ items, item.isSound levels = true := by
  induction items with
  | nil => simp [allSound]
  | cons item items ih => rw [allSound, Bool.and_eq_true, ih, List.forall_mem_cons]

lemma Member.height_eq (m : Member) : m.height = m.value.height := by
  obtain ⟨key, value⟩ := m
  rw [height]

lemma membersHeight_le_iff {members : List Member} {levels : Nat} :
    membersHeight members ≤ levels ↔ ∀ m ∈ members, m.value.height ≤ levels := by
  induction members with
  | nil => simp [membersHeight]
  | cons m members ih =>
    rw [membersHeight, Nat.max_le, ih, List.forall_mem_cons, m.height_eq]

lemma allMembersSound_iff {members : List Member} {levels : Nat} :
    allMembersSound levels members = true ↔ ∀ m ∈ members, m.isSound levels = true := by
  induction members with
  | nil => simp [allMembersSound]
  | cons m members ih => rw [allMembersSound, Bool.and_eq_true, ih, List.forall_mem_cons]

lemma isSound_iff {v : Json} (h : v.Made fun n => n.inRange = true) {levels : Nat} :
    v.isSound levels = true ↔ v.height ≤ levels := by
  induction h generalizing levels with
  | null => simp [isSound, height]
  | bool value => simp [isSound, height]
  | number h => simp [isSound, height, h]
  | string text => simp [isSound, height, unescape?_escape]
  | @array items _ ih =>
    cases levels with
    | zero => simp [isSound, height]
    | succ levels =>
      rw [isSound, allSound_iff, height, Nat.add_le_add_iff_right, itemsHeight_le_iff]
      exact forall₂_congr fun item hitem => ih item hitem
  | @object members keys _ ih =>
    cases levels with
    | zero => simp [isSound, height]
    | succ levels =>
      rw [isSound, allMembersSound_iff, height, Nat.add_le_add_iff_right, membersHeight_le_iff]
      refine forall₂_congr fun m hm => ?_
      obtain ⟨key, hkey⟩ := keys m hm
      obtain ⟨_, value⟩ := m
      obtain rfl : _ = escape key := hkey
      rw [Member.isSound, unescape?_escape, Option.isSome_some, Bool.true_and]
      exact ih _ hm

lemma height_ofText (text : String) : (ofText text).height = 0 := rfl

lemma height_ofTagged (tag : String) (value : Json) :
    (ofTagged tag value).height = value.height + 1 := by
  simp [ofTagged, ofMembers, height, membersHeight, Member.height_eq, member]

end Json

lemma Call.toJson_eq (call : Call .spelled) : Call.toJson call = ofMembers call.members := by
  obtain ⟨callee, args⟩ := call
  rfl

lemma Call.height_toJson (call : Call .spelled) :
    (Call.toJson call).height = itemsHeight (argumentsToJson call.args) + 2 := by
  rw [Call.toJson_eq]
  simp [Call.members, ofMembers, height, membersHeight, Member.height_eq, member, height_ofText]

section Reading

mutual

lemma Token.ofJson?_toJson : ∀ (t : Token .spelled) {steps : Nat}, t.toJson.height ≤ steps →
    Token.ofJson? steps t.toJson = some t
  | .symbol ref, steps, h => by
    rw [Token.toJson, height_ofTagged] at h
    obtain ⟨steps, rfl⟩ := Nat.exists_eq_succ_of_ne_zero (by omega : steps ≠ 0)
    simp [Token.toJson, Token.ofJson?, tagged?_ofTagged, text?_ofText]
  | .operator operator, steps, h => by
    rw [Token.toJson, height_ofTagged] at h
    obtain ⟨steps, rfl⟩ := Nat.exists_eq_succ_of_ne_zero (by omega : steps ≠ 0)
    simp [Token.toJson, Token.ofJson?, tagged?_ofTagged, text?_ofText]
  | .call call, steps, h => by
    rw [Token.toJson, height_ofTagged] at h
    obtain ⟨steps, rfl⟩ := Nat.exists_eq_succ_of_ne_zero (by omega : steps ≠ 0)
    have hcall : Call.ofFields? steps call.members = some call :=
      Call.ofFields?_eq call (by simp [Call.members]) (by simp [Call.members]) (Nat.le_of_succ_le_succ h)
    simp [Token.toJson, Token.ofJson?, tagged?_ofTagged, Call.toJson_eq, fields?_ofMembers, hcall]

lemma Call.ofFields?_eq : ∀ (call : Call .spelled) {steps : Nat} {fields : Fields},
    fields.under "callee" = [ofText call.callee] →
    fields.under "args" = [.array (argumentsToJson call.args)] →
    (Call.toJson call).height ≤ steps → Call.ofFields? steps fields = some call
  | ⟨callee, args⟩, steps, fields, hcallee, hargs, h => by
    rw [Call.height_toJson] at h
    obtain ⟨steps, rfl⟩ := Nat.exists_eq_succ_of_ne_zero (by omega : steps ≠ 0)
    have hitems : (argumentsToJson args).mapM (Argument.ofJson? steps) = some args :=
      mapM_argumentsToJson args (by dsimp only at h; omega)
    rw [Call.ofFields?, Fields.required_eq hcallee (text?_ofText callee), Fields.optional_eq hargs hitems]
    rfl

lemma Argument.ofJson?_toJson : ∀ (arg : Argument .spelled) {steps : Nat}, arg.toJson.height < steps →
    Argument.ofJson? steps arg.toJson = some arg
  | .symbol ref, steps, h => by
    obtain ⟨steps, rfl⟩ := Nat.exists_eq_succ_of_ne_zero (by omega : steps ≠ 0)
    rw [Argument.toJson, ofText, Argument.ofJson?, ← ofText, text?_ofText]
    rfl
  | .expr tokens, steps, h => by
    obtain ⟨steps, rfl⟩ := Nat.exists_eq_succ_of_ne_zero (by omega : steps ≠ 0)
    rw [Argument.toJson, height] at h
    have htokens := mapM_tokensToJson tokens (by omega : itemsHeight (tokensToJson tokens) ≤ steps)
    rw [Argument.toJson, Argument.ofJson?, list?, htokens]
    · rfl
    · rintro body ⟨⟩

lemma mapM_argumentsToJson : ∀ (args : List (Argument .spelled)) {steps : Nat},
    itemsHeight (argumentsToJson args) < steps →
    (argumentsToJson args).mapM (Argument.ofJson? steps) = some args
  | [], _, _ => rfl
  | arg :: args, steps, h => by
    rw [argumentsToJson, itemsHeight, Nat.max_lt] at h
    rw [argumentsToJson, List.mapM_cons, Argument.ofJson?_toJson arg h.1, mapM_argumentsToJson args h.2]
    rfl

lemma mapM_tokensToJson : ∀ (tokens : List (Token .spelled)) {steps : Nat},
    itemsHeight (tokensToJson tokens) ≤ steps →
    (tokensToJson tokens).mapM (Token.ofJson? steps) = some tokens
  | [], _, _ => rfl
  | token :: tokens, steps, h => by
    rw [tokensToJson, itemsHeight, Nat.max_le] at h
    rw [tokensToJson, List.mapM_cons, Token.ofJson?_toJson token h.1, mapM_tokensToJson tokens h.2]
    rfl

end

variable {fields : Fields}

lemma Spawn.ofFields?_eq (spawn : Spawn .spelled) (hcallee : fields.under "callee" = [ofText spawn.callee])
    (htake : fields.under "take" = [ofList ofWord spawn.take])
    (hgive : fields.under "give" = [ofList ofText spawn.give]) :
    Spawn.ofFields? fields = some spawn := by
  rw [ofFields?, Fields.required_eq hcallee (text?_ofText _),
    Fields.optional_eq htake (list?_ofList word?_ofWord _),
    Fields.optional_eq hgive (list?_ofList text?_ofText _)]
  rfl

lemma expressionOfJson?_eq {tokens : Expression .spelled}
    (h : (expressionToJson tokens).height ≤ instructionLevels) :
    expressionOfJson? (expressionToJson tokens) = some tokens := by
  refine mapM_tokensToJson tokens ?_
  rw [expressionToJson, height] at h
  unfold instructionSteps
  omega

lemma Operand.ofJson?_toJson {operand : Operand .spelled} (h : operand.toJson.height ≤ instructionLevels) :
    Operand.ofJson? operand.toJson = some operand := by
  cases operand with
  | var ref =>
    rw [toJson, ofText, ofJson?, ← ofText, text?_ofText]
    rfl
  | expr tokens =>
    rw [toJson, expressionToJson, ofJson?, ← expressionToJson, expressionOfJson?_eq h]
    · rfl
    · rintro body ⟨⟩

namespace Instruction

lemma opcodeOfWord?_word (op : Opcode) : opcodeOfWord? op.word = some op := by
  cases op <;> rfl

lemma under_members (i : Instruction .spelled) : Fields.under i.members "op" = [] := by
  cases i <;> simp [members, Spawn.members, Call.members]

lemma words_ofWords : ∀ ws, list? word? (ofList ofWord ws) = some ws := list?_ofList word?_ofWord

lemma texts_ofTexts : ∀ texts, list? text? (ofList ofText texts) = some texts := list?_ofList text?_ofText

/-- The members of an instruction, whatever stands under the key of its opcode. -/
lemma ofFields?_members (i : Instruction .spelled) {value : Json}
    (h : ∀ m ∈ i.members, m.2.height < instructionLevels) :
    ofFields? (("op", value) :: i.members) i.opcode = some i := by
  cases i with
  | nop | label | «return» | endIf | breakSwitch | endSwitch | «break» | endDoWhile | unsure1 => rfl
  | returnVal operand | deleteRuntime operand | wait operand | waitMs operand | waitCompleted operand =>
    have hoperand := Operand.ofJson?_toJson (Nat.le_of_lt (h _ (List.mem_singleton_self _)))
    simp [members, opcode, ofFields?, Fields.required, hoperand]
  | thread spawn | thread2 spawn =>
    have hspawn : Spawn.ofFields? (("op", value) :: spawn.members) = some spawn :=
      Spawn.ofFields?_eq spawn (by simp [Spawn.members]) (by simp [Spawn.members])
        (by simp [Spawn.members])
    simp [members, opcode, ofFields?, hspawn]
  | call c | callAsThread c | callAsChildThread c =>
    have hargs := h ("args", _) (List.mem_cons_of_mem _ (List.mem_singleton_self _))
    rw [height] at hargs
    have hsteps : (Call.toJson c).height ≤ instructionSteps := by
      rw [Call.height_toJson, instructionSteps]
      omega
    have hcall : Call.ofFields? instructionSteps (("op", value) :: c.members) = some c :=
      Call.ofFields?_eq c (by simp [Call.members]) (by simp [Call.members]) hsteps
    simp [members, opcode, ofFields?, hcall]
  | «if» condition target unknown1 unknown2 =>
    have hcondition := expressionOfJson?_eq (Nat.le_of_lt (h _ List.mem_cons_self))
    simp [members, opcode, ofFields?, target?, Fields.required, Fields.optional, hcondition,
      word?_ofWord, words_ofWords]
  | elseIf skipTarget unknown1 condition target unknown3 unknown4 =>
    have hcondition := expressionOfJson?_eq (Nat.le_of_lt (h _ List.mem_cons_self))
    simp [members, opcode, ofFields?, target?, Fields.required, Fields.optional, hcondition,
      word?_ofWord, words3?, words_ofWords, Words3.ofList?]
  | doWhile condition target =>
    have hcondition := Operand.ofJson?_toJson (Nat.le_of_lt (h _ List.mem_cons_self))
    simp [members, opcode, ofFields?, target?, Fields.required, Fields.optional, hcondition, word?_ofWord]
  | set assignee operand =>
    have hoperand := Operand.ofJson?_toJson
      (Nat.le_of_lt (h _ (List.mem_cons_of_mem _ (List.mem_singleton_self _))))
    simp [members, opcode, ofFields?, Fields.required, text?_ofText, hoperand]
  | unsure2 expr | unsure9 expr =>
    have hexpr := expressionOfJson?_eq (Nat.le_of_lt (h _ (List.mem_singleton_self _)))
    simp [members, opcode, ofFields?, Fields.required, hexpr]
  | getArgs | goto | «else» | switch | case | case2 | readTableLength | getIndex | unsure3 | unsure4
  | unsure7 | unsure8 | unsure11 =>
    -- These hold texts and words only.
    simp [members, opcode, ofFields?, target?, Fields.required, Fields.optional, text?_ofText,
      word?_ofWord, texts_ofTexts]

end Instruction

end Reading

section Written

variable {P : Numeral → Prop}

lemma made_ofWord (hP : ∀ w : UInt32, P (Numeral.ofNat w.toNat)) (w : UInt32) : (ofWord w).Made P :=
  .number (hP w)

mutual

lemma Token.made_toJson : ∀ t : Token .spelled, t.toJson.Made P
  | .symbol ref => by
    rw [Token.toJson]
    exact made_ofTagged (made_ofText ref)
  | .operator operator => by
    rw [Token.toJson]
    exact made_ofTagged (made_ofText operator)
  | .call call => by
    rw [Token.toJson]
    exact made_ofTagged (Call.made_toJson call)

lemma Call.made_toJson : ∀ call : Call .spelled, (Call.toJson call).Made P
  | ⟨callee, args⟩ => by
    rw [Call.toJson]
    exact made_ofMembers (List.forall_mem_cons.mpr ⟨made_ofText callee,
      List.forall_mem_singleton.mpr (.array (made_argumentsToJson args))⟩)

lemma Argument.made_toJson : ∀ arg : Argument .spelled, arg.toJson.Made P
  | .symbol ref => by
    rw [Argument.toJson]
    exact made_ofText ref
  | .expr tokens => by
    rw [Argument.toJson]
    exact .array (made_tokensToJson tokens)

lemma made_argumentsToJson : ∀ args : List (Argument .spelled), ∀ v ∈ argumentsToJson args, v.Made P
  | [] => List.forall_mem_nil _
  | arg :: args => by
    rw [argumentsToJson]
    exact List.forall_mem_cons.mpr ⟨Argument.made_toJson arg, made_argumentsToJson args⟩

lemma made_tokensToJson : ∀ tokens : List (Token .spelled), ∀ v ∈ tokensToJson tokens, v.Made P
  | [] => List.forall_mem_nil _
  | token :: tokens => by
    rw [tokensToJson]
    exact List.forall_mem_cons.mpr ⟨Token.made_toJson token, made_tokensToJson tokens⟩

end

lemma made_expressionToJson (tokens : Expression .spelled) : (expressionToJson tokens).Made P :=
  .array (made_tokensToJson tokens)

lemma Operand.made_toJson (operand : Operand .spelled) : operand.toJson.Made P := by
  cases operand with
  | var ref => exact made_ofText ref
  | expr tokens => exact made_expressionToJson tokens

namespace Instruction

lemma made_toJson (hP : ∀ w : UInt32, P (Numeral.ofNat w.toNat)) (i : Instruction .spelled) :
    i.toJson.Made P := by
  have htexts (texts : List String) : (ofList ofText texts).Made P :=
    made_ofList fun text _ => made_ofText text
  have hwords (ws : List UInt32) : (ofList ofWord ws).Made P := made_ofList fun w _ => made_ofWord hP w
  have hargs (args : List (Argument .spelled)) : (Json.array (argumentsToJson args)).Made P :=
    .array (made_argumentsToJson args)
  refine made_ofMembers (List.forall_mem_cons.mpr ⟨made_ofText _, ?_⟩)
  cases i <;>
    simp [members, Spawn.members, Call.members, made_ofText, made_ofWord hP, htexts, hwords, hargs,
      Operand.made_toJson, made_expressionToJson]

/-- An instruction is read back exactly if its value is not nested too deeply. -/
theorem ofJson?_toJson_iff (i : Instruction .spelled) :
    ofJson? i.toJson = some i ↔ i.toJson.height ≤ instructionLevels := by
  have hmade : i.toJson.Made fun n => n.inRange = true :=
    made_toJson (fun w => Numeral.inRange_ofNat (Nat.lt_trans w.toNat_lt (by decide))) i
  constructor
  · intro h
    unfold ofJson? at h
    split at h
    case isTrue hsound => exact (isSound_iff hmade).mp hsound
    case isFalse => cases h
  · intro h
    have hmembers : ∀ m ∈ i.members, m.2.height < instructionLevels := by
      rw [toJson, ofMembers, height, Nat.succ_le_iff, Nat.lt_iff_le_pred (by decide),
        membersHeight_le_iff] at h
      intro m hm
      have hle := h (member m.1 m.2) (List.mem_map_of_mem (List.mem_cons_of_mem _ hm))
      exact Nat.lt_of_le_of_lt hle (by decide)
    rw [ofJson?, if_pos ((isSound_iff hmade).mpr h)]
    have hop : Fields.required (("op", ofText i.opcode.word) :: i.members) "op" text? =
        some i.opcode.word :=
      Fields.required_eq (by rw [Fields.under_cons_self, under_members]) (text?_ofText _)
    rw [toJson, fields?_ofMembers, Option.bind_eq_bind, Option.bind_some, hop]
    simp [opcodeOfWord?_word, ofFields?_members i hmembers]

end Instruction

end Written

end ScriptContainer
