import ScriptContainer.Proofs.Resolving

/-!
# Decoding undoes encoding

Code in which every reference is found again by its number is read back from its words, whatever
bytes stand before and after them, unless some word of it can be taken for another one.
-/

namespace ScriptContainer

/-- The number of each record, and the code of each operator. -/
def Slots.Change.numbers : Slots.Change .bound .numbered Id where
  symbol symbol := symbol.id
  var ref := ref.id
  table ref := ref.id
  label ref := ref.id
  callee callee := callee.id
  imported id := id
  function id := id
  operator operator := operator.code

/-- The instruction with the number of each record in the place of its reference. -/
def Instruction.numbered (i : Instruction .bound) : Instruction .numbered :=
  Instruction.change (m := Id) .numbers i

/-- Where the one change makes a reference, the other one makes the same. -/
structure Slots.Change.Makes {S T : Slots} {ε : Type} (f : S.Change T (Except ε))
    (g : S.Change T Id) : Prop where
  symbol : ∀ {r w}, f.symbol r = .ok w → w = g.symbol r
  var : ∀ {r w}, f.var r = .ok w → w = g.var r
  table : ∀ {r w}, f.table r = .ok w → w = g.table r
  label : ∀ {r w}, f.label r = .ok w → w = g.label r
  callee : ∀ {r w}, f.callee r = .ok w → w = g.callee r
  imported : ∀ {r w}, f.imported r = .ok w → w = g.imported r
  function : ∀ {r w}, f.function r = .ok w → w = g.function r
  operator : ∀ {r w}, f.operator r = .ok w → w = g.operator r

section Making

variable {S T : Slots} {ε : Type} {f : S.Change T (Except ε)} {g : S.Change T Id}

mutual

lemma Token.change_makes (h : f.Makes g) : ∀ {t : Token S} {u : Token T}, t.change f = .ok u →
    u = Token.change g t
  | .symbol _, _, ht => by
    obtain ⟨_, hr, rfl⟩ := map_eq_ok_iff.mp ht
    exact congrArg Token.symbol (h.symbol hr)
  | .operator _, _, ht => by
    obtain ⟨_, hr, rfl⟩ := map_eq_ok_iff.mp ht
    exact congrArg Token.operator (h.operator hr)
  | .call _, _, ht => by
    obtain ⟨_, hc, rfl⟩ := map_eq_ok_iff.mp ht
    exact congrArg Token.call (Call.change_makes h hc)

lemma Call.change_makes (h : f.Makes g) : ∀ {c : Call S} {d : Call T}, c.change f = .ok d →
    d = Call.change g c
  | ⟨_, _⟩, _, hc => by
    rw [Call.change] at hc
    obtain ⟨_, hcallee, hc⟩ := bind_eq_ok_iff.mp hc
    obtain ⟨_, hargs, hc⟩ := bind_eq_ok_iff.mp hc
    obtain rfl := pure_eq_ok_iff.mp hc
    exact congrArg₂ Call.mk (h.callee hcallee) (changeArguments_makes h hargs)

lemma Argument.change_makes (h : f.Makes g) : ∀ {a : Argument S} {b : Argument T},
    a.change f = .ok b → b = Argument.change g a
  | .symbol _, _, ha => by
    obtain ⟨_, hr, rfl⟩ := map_eq_ok_iff.mp ha
    exact congrArg Argument.symbol (h.symbol hr)
  | .expr _, _, ha => by
    obtain ⟨_, ht, rfl⟩ := map_eq_ok_iff.mp ha
    exact congrArg Argument.expr (changeTokens_makes h ht)

lemma changeArguments_makes (h : f.Makes g) : ∀ {as : List (Argument S)} {bs : List (Argument T)},
    changeArguments f as = .ok bs → bs = changeArguments g as
  | [], _, has => (pure_eq_ok_iff.mp has).symm
  | _ :: _, _, has => by
    rw [changeArguments] at has
    obtain ⟨_, ha, has⟩ := bind_eq_ok_iff.mp has
    obtain ⟨_, hrest, has⟩ := bind_eq_ok_iff.mp has
    obtain rfl := pure_eq_ok_iff.mp has
    exact congrArg₂ List.cons (Argument.change_makes h ha) (changeArguments_makes h hrest)

lemma changeTokens_makes (h : f.Makes g) : ∀ {ts : List (Token S)} {us : List (Token T)},
    changeTokens f ts = .ok us → us = changeTokens g ts
  | [], _, hts => (pure_eq_ok_iff.mp hts).symm
  | _ :: _, _, hts => by
    rw [changeTokens] at hts
    obtain ⟨_, ht, hts⟩ := bind_eq_ok_iff.mp hts
    obtain ⟨_, hrest, hts⟩ := bind_eq_ok_iff.mp hts
    obtain rfl := pure_eq_ok_iff.mp hts
    exact congrArg₂ List.cons (Token.change_makes h ht) (changeTokens_makes h hrest)

end

lemma Operand.change_makes (h : f.Makes g) {a : Operand S} {b : Operand T}
    (ha : a.change f = .ok b) : b = Operand.change g a := by
  cases a with
  | var ref =>
    obtain ⟨_, hr, rfl⟩ := map_eq_ok_iff.mp ha
    exact congrArg Operand.var (h.var hr)
  | expr tokens =>
    obtain ⟨_, ht, rfl⟩ := map_eq_ok_iff.mp ha
    exact congrArg Operand.expr (changeTokens_makes h ht)

lemma mapM_var_makes (h : f.Makes g) {rs : List S.var} {ws : List T.var}
    (hrs : rs.mapM f.var = .ok ws) : ws = List.mapM g.var rs := by
  induction rs generalizing ws with
  | nil => exact (pure_eq_ok_iff.mp hrs).symm
  | cons r rs ih =>
    rw [List.mapM_cons] at hrs
    obtain ⟨w, hr, hrs⟩ := bind_eq_ok_iff.mp hrs
    obtain ⟨ws, hrest, hrs⟩ := bind_eq_ok_iff.mp hrs
    obtain rfl := pure_eq_ok_iff.mp hrs
    rw [List.mapM_cons]
    exact congrArg₂ List.cons (h.var hr) (ih hrest)

lemma Spawn.change_makes (h : f.Makes g) {a : Spawn S} {b : Spawn T} (ha : a.change f = .ok b) :
    b = Spawn.change g a := by
  rw [change] at ha
  obtain ⟨callee, hcallee, ha⟩ := bind_eq_ok_iff.mp ha
  obtain ⟨give, hgive, ha⟩ := bind_eq_ok_iff.mp ha
  obtain rfl := pure_eq_ok_iff.mp ha
  obtain rfl := h.callee hcallee
  obtain rfl := mapM_var_makes h hgive
  rfl

/-- Code that one change makes is the code that the other one makes. -/
theorem Instruction.change_makes (h : f.Makes g) {i : Instruction S} {j : Instruction T}
    (hi : i.change f = .ok j) : j = Instruction.change g i := by
  cases i <;> simp only [change, bind_eq_ok_iff, map_eq_ok_iff, pure_eq_ok_iff] at hi
  -- Each operand in turn is replaced by the one that `g` makes.
  all_goals
    repeat
      obtain ⟨_, hw, hi⟩ := hi
      first
        | obtain rfl := h.var hw
        | obtain rfl := h.table hw
        | obtain rfl := h.label hw
        | obtain rfl := h.imported hw
        | obtain rfl := h.function hw
        | obtain rfl := Operand.change_makes h hw
        | obtain rfl := Call.change_makes h hw
        | obtain rfl := Spawn.change_makes h hw
        | obtain rfl := changeTokens_makes h hw
        | obtain rfl := mapM_var_makes h hw
    subst hi
    rfl

end Making

lemma Script.numbering_makes (s : Script) : s.numbering.Makes .numbers where
  symbol h := Script.check_eq_ok h
  var h := Script.check_eq_ok h
  table h := Script.check_eq_ok h
  label h := Script.check_eq_ok h
  callee {callee _} h := by rw [Script.check_eq_ok h]; cases callee <;> rfl
  imported h := Script.check_eq_ok h
  function h := Script.check_eq_ok h
  operator h := (Except.ok.inj h).symm

lemma Context.IsScoped.rebinding_feeds {ctx : Context} (h : ctx.IsScoped) :
    ctx.rebinding.Feeds ctx.script.numbering :=
  have hself : ctx.script.Includes ctx.script := fun _ hs => hs
  { symbol := fun hfound => hself.exists_check (h.resolve_has hfound)
    var := fun hfound => hself.exists_check (h.findVariable_has hfound)
    table := fun hfound => hself.exists_check (h.findTable_has hfound)
    label := fun hfound => hself.exists_check (h.findLabel_has hfound)
    callee := fun hfound => hself.exists_check (findCallee_has hfound)
    imported := fun hfound => hself.exists_check (findImport_has hfound)
    function := fun hfound => hself.exists_check (findFunction_has hfound)
    operator := fun _ => ⟨_, rfl⟩ }

namespace Instruction

variable {ctx : Context} {i : Instruction .bound}

lemma encode_of_keeps (hscoped : ctx.IsScoped) (hkeeps : i.change ctx.rebinding = .ok i) :
    i.change ctx.script.numbering = .ok i.numbered ∧
      i.encode ctx.script = .ok i.numbered.words := by
  obtain ⟨n, hn⟩ := exists_change hscoped.rebinding_feeds hkeeps
  obtain rfl : n = i.numbered := change_makes ctx.script.numbering_makes hn
  exact ⟨hn, encode_eq_ok_iff.mpr ⟨_, hn, rfl⟩⟩

/-- An instruction can be written if each of its references is found again by its number. If no
word of it can be taken for another one, it is read back wherever it has been written and whatever
follows, and reading stops where it ends. -/
theorem decode_encode (hscoped : ctx.IsScoped) (hkeeps : i.change ctx.rebinding = .ok i)
    (hclear : i.numbered.isClear) :
    ∃ words, i.encode ctx.script = .ok words ∧ ∀ (w : Writer) (rest : List UInt8),
      let written := (w.words words).bytes ++ rest
      Read.instruction ctx ⟨written, w.position⟩ = .ok i ⟨written, (w.words words).position⟩ := by
  obtain ⟨hnumbered, hencode⟩ := encode_of_keeps hscoped hkeeps
  refine ⟨i.numbered.words, hencode, fun w rest => ?_⟩
  have hspells : ctx.script.Spells i := ⟨i.numbered, hnumbered, hclear⟩
  have hlength : (bytesOfWords i.numbered.words).length = i.size := by
    rw [length_bytesOfWords, length_of_encode hencode]
  have hbytes : ctx.script.bytesOf i = bytesOfWords i.numbered.words := by
    rw [Script.bytesOf, hencode]
    rfl
  rw [w.words_eq]
  set written := (w.append (bytesOfWords i.numbered.words)).bytes ++ rest with hwritten
  have hshows : Reader.Shows ⟨written, w.position⟩ (ctx.script.bytesOf i ++ rest) := by
    refine ⟨w.bytes.toList, ?_, Array.length_toList⟩
    rw [hwritten, hbytes, Array.toList_appendList, w.toList_append, List.append_assoc]
  have hread := Read.instruction_settled hspells ctx hshows
  rw [hkeeps] at hread
  rw [w.position_append, hlength]
  exact of_settled_ok hread

/-- Functions, one started by the other, with variables of the same number. -/
def relay : Script :=
  let outer : Function := (Function.new 1).addVariable ⟨2, none, .owned, .int, 0, .int 7⟩
  let inner : Function := ((Function.new 4).addVariable ⟨5, none, .owned, .int, 0, .int 1⟩).addTable
    ⟨6, some "steps", .int, 0, 0, .ints []⟩
  let script := (Script.new.addFunction outer).addFunction inner
  (script.addVariable ⟨5, some "level", .static, .int, 0, .int 0⟩).addImport ⟨9, some "emit", .zero⟩

/-- The inner function of `relay` entered under the outer one. -/
def relayScopes : Context := relay.under [1, 4]

/-- A call of the import whose first argument holds another call. -/
def relayCall : Instruction .bound :=
  let near : Symbol := .variable ⟨.function 4, 5⟩
  let far : Symbol := .variable ⟨.function 1, 2⟩
  let nested : Call .bound := ⟨.function 4, [.expr [.symbol far], .expr []]⟩
  .callAsThread ⟨.imported 9,
    [.expr [.call nested, .symbol near, .operator .add], .expr [.symbol (.table ⟨.function 4, 6⟩)]]⟩

theorem relayCall_decodes :
    relayScopes.IsScoped ∧ relayCall.change relayScopes.rebinding = .ok relayCall ∧
      relayCall.numbered.isClear ∧
      ∃ words, relayCall.encode relayScopes.script = .ok words ∧
        ∀ (w : Writer) (rest : List UInt8),
          let written := (w.words words).bytes ++ rest
          Read.instruction relayScopes ⟨written, w.position⟩ =
            .ok relayCall ⟨written, (w.words words).position⟩ := by
  have hscoped : relayScopes.IsScoped := relay.isScoped_under [1, 4]
  have hkeeps : relayCall.change relayScopes.rebinding = .ok relayCall := rfl
  have hclear : relayCall.numbered.isClear := by decide +kernel
  exact ⟨hscoped, hkeeps, hclear, decode_encode hscoped hkeeps hclear⟩

end Instruction

end ScriptContainer
