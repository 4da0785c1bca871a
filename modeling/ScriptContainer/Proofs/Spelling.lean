import ScriptContainer.Document.Export
import ScriptContainer.Document.Import
import ScriptContainer.Proofs.Decodes

/-!
# Spelling and looking up

A number is read as it is written, and a name is written only where looking it up finds the record
again. So what is found by its number is found by its spelling.
-/

namespace ScriptContainer

namespace Key

variable {digits : List Char}

lemma digitsFrom_eq (h : ∀ c ∈ digits, c.isDigit = true) (value : Nat) :
    digitsFrom 10 value digits = some (Nat.ofDigitChars 10 digits value) := by
  induction digits generalizing value with
  | nil => rfl
  | cons c rest ih =>
    rw [List.forall_mem_cons] at h
    have hc : '0' ≤ c ∧ c ≤ '9' := by
      have := h.1
      rwa [Char.isDigit, Bool.and_eq_true, decide_eq_true_eq, decide_eq_true_eq] at this
    have hlt : c.toNat - '0'.toNat < 10 := by
      have : c.toNat ≤ '9'.toNat := hc.2
      have : '9'.toNat = '0'.toNat + 9 := rfl
      omega
    rw [digitsFrom, digit?, if_pos hc]
    dsimp only
    rw [if_pos hlt, ih h.2]
    rfl

lemma readId?_eq (h : ∀ c ∈ digits, c.isDigit = true) (hne : digits ≠ [])
    (hlt : Nat.ofDigitChars 10 digits 0 < UInt32.size) :
    readId? 10 digits = some (UInt32.ofNat (Nat.ofDigitChars 10 digits 0)) := by
  unfold readId?
  split
  · exact absurd (h '+' List.mem_cons_self) (by decide)
  · dsimp only
    rw [List.isEmpty_eq_false_iff.mpr hne, digitsFrom_eq h, if_neg Bool.false_ne_true]
    exact if_pos hlt

lemma numbered?_eq (h : ∀ c ∈ digits, c.isDigit = true) :
    numbered? ('r' :: 'e' :: 'f' :: ':' :: digits) = readId? 10 digits := by
  rw [numbered?]
  intro rest hrest
  have hx := h 'x' (by simp [hrest])
  exact absurd hx (by decide)

/-- The spelling of a number is read as that number. -/
theorem parse_spellId (id : RecordId) : parse (spellId id) = .id id := by
  let digits := Nat.toDigits 10 id.toNat
  have htext : (spellId id).toList = 'r' :: 'e' :: 'f' :: ':' :: digits := by
    have hnumber : (toString id.toNat).toList = digits := by
      rw [Nat.toString_eq_ofList_toDigits, String.toList_ofList]
    rw [spellId, String.toList_append, hnumber]
    rfl
  have hdigits : ∀ c ∈ digits, c.isDigit = true := by
    intro c hc
    exact Nat.isDigit_of_mem_toDigits (by decide) (by decide) hc
  have hvalue : Nat.ofDigitChars 10 digits 0 = id.toNat := Nat.ofDigitChars_ten_toDigits
  have hread : readId? 10 digits = some id := by
    rw [readId?_eq hdigits Nat.toDigits_ne_nil (hvalue ▸ id.toNat_lt), hvalue, UInt32.ofNat_toNat]
  rw [parse, htext, numbered?_eq hdigits, hread]

end Key

/-- References that `keep` leaves as they are can be written down and are read as they were. -/
structure Slots.Change.Restores {S T : Slots} {ε : Type} (write : S.Change T Id)
    (read : T.Change S (Except ε)) (keep : S.Change S (Except Error)) : Prop where
  symbol : ∀ {r}, keep.symbol r = .ok r → read.symbol (write.symbol r) = .ok r
  var : ∀ {r}, keep.var r = .ok r → read.var (write.var r) = .ok r
  table : ∀ {r}, keep.table r = .ok r → read.table (write.table r) = .ok r
  label : ∀ {r}, keep.label r = .ok r → read.label (write.label r) = .ok r
  callee : ∀ {r}, keep.callee r = .ok r → read.callee (write.callee r) = .ok r
  imported : ∀ {r}, keep.imported r = .ok r → read.imported (write.imported r) = .ok r
  function : ∀ {r}, keep.function r = .ok r → read.function (write.function r) = .ok r
  operator : ∀ {r}, keep.operator r = .ok r → read.operator (write.operator r) = .ok r

section Restoring

variable {S T : Slots} {ε : Type} {write : S.Change T Id} {read : T.Change S (Except ε)}
  {keep : S.Change S (Except Error)}

mutual

lemma Token.restore (h : write.Restores read keep) : ∀ {t : Token S}, t.change keep = .ok t →
    (Token.change write t).change read = .ok t
  | .symbol _, ht => by
    obtain ⟨_, hr, he⟩ := map_eq_ok_iff.mp ht
    obtain rfl := (Token.symbol.inj he).symm
    exact map_eq_ok_iff.mpr ⟨_, h.symbol hr, rfl⟩
  | .operator _, ht => by
    obtain ⟨_, hr, he⟩ := map_eq_ok_iff.mp ht
    obtain rfl := (Token.operator.inj he).symm
    exact map_eq_ok_iff.mpr ⟨_, h.operator hr, rfl⟩
  | .call _, ht => by
    obtain ⟨_, hc, he⟩ := map_eq_ok_iff.mp ht
    obtain rfl := (Token.call.inj he).symm
    exact map_eq_ok_iff.mpr ⟨_, Call.restore h hc, rfl⟩

lemma Call.restore (h : write.Restores read keep) : ∀ {c : Call S}, c.change keep = .ok c →
    (Call.change write c).change read = .ok c
  | ⟨_, _⟩, hc => by
    rw [Call.change] at hc
    obtain ⟨_, hcallee, hc⟩ := bind_eq_ok_iff.mp hc
    obtain ⟨_, hargs, hc⟩ := bind_eq_ok_iff.mp hc
    obtain ⟨rfl, rfl⟩ := Call.mk.inj (pure_eq_ok_iff.mp hc).symm
    refine bind_eq_ok_iff.mpr ⟨_, h.callee hcallee, ?_⟩
    exact bind_eq_ok_iff.mpr ⟨_, changeArguments_restore h hargs, rfl⟩

lemma Argument.restore (h : write.Restores read keep) : ∀ {a : Argument S},
    a.change keep = .ok a → (Argument.change write a).change read = .ok a
  | .symbol _, ha => by
    obtain ⟨_, hr, he⟩ := map_eq_ok_iff.mp ha
    obtain rfl := (Argument.symbol.inj he).symm
    exact map_eq_ok_iff.mpr ⟨_, h.symbol hr, rfl⟩
  | .expr _, ha => by
    obtain ⟨_, ht, he⟩ := map_eq_ok_iff.mp ha
    obtain rfl := (Argument.expr.inj he).symm
    exact map_eq_ok_iff.mpr ⟨_, changeTokens_restore h ht, rfl⟩

lemma changeArguments_restore (h : write.Restores read keep) : ∀ {as : List (Argument S)},
    changeArguments keep as = .ok as → changeArguments read (changeArguments write as) = .ok as
  | [], _ => rfl
  | _ :: _, has => by
    rw [changeArguments] at has
    obtain ⟨_, ha, has⟩ := bind_eq_ok_iff.mp has
    obtain ⟨_, hrest, has⟩ := bind_eq_ok_iff.mp has
    obtain ⟨rfl, rfl⟩ := List.cons.inj (pure_eq_ok_iff.mp has).symm
    refine bind_eq_ok_iff.mpr ⟨_, Argument.restore h ha, ?_⟩
    exact bind_eq_ok_iff.mpr ⟨_, changeArguments_restore h hrest, rfl⟩

lemma changeTokens_restore (h : write.Restores read keep) : ∀ {ts : List (Token S)},
    changeTokens keep ts = .ok ts → changeTokens read (changeTokens write ts) = .ok ts
  | [], _ => rfl
  | _ :: _, hts => by
    rw [changeTokens] at hts
    obtain ⟨_, ht, hts⟩ := bind_eq_ok_iff.mp hts
    obtain ⟨_, hrest, hts⟩ := bind_eq_ok_iff.mp hts
    obtain ⟨rfl, rfl⟩ := List.cons.inj (pure_eq_ok_iff.mp hts).symm
    refine bind_eq_ok_iff.mpr ⟨_, Token.restore h ht, ?_⟩
    exact bind_eq_ok_iff.mpr ⟨_, changeTokens_restore h hrest, rfl⟩

end

lemma Operand.restore (h : write.Restores read keep) {a : Operand S} (ha : a.change keep = .ok a) :
    (Operand.change write a).change read = .ok a := by
  cases a with
  | var ref =>
    obtain ⟨_, hr, he⟩ := map_eq_ok_iff.mp ha
    obtain rfl := Operand.var.inj he
    exact map_eq_ok_iff.mpr ⟨_, h.var hr, rfl⟩
  | expr tokens =>
    obtain ⟨_, ht, he⟩ := map_eq_ok_iff.mp ha
    obtain rfl := Operand.expr.inj he
    exact map_eq_ok_iff.mpr ⟨_, changeTokens_restore h ht, rfl⟩

lemma mapM_var_restore (h : write.Restores read keep) {rs : List S.var}
    (hrs : rs.mapM keep.var = .ok rs) : (List.mapM write.var rs).mapM read.var = .ok rs := by
  induction rs with
  | nil => rfl
  | cons r rs ih =>
    rw [List.mapM_cons] at hrs ⊢
    obtain ⟨_, hr, hrs⟩ := bind_eq_ok_iff.mp hrs
    obtain ⟨_, hrest, hrs⟩ := bind_eq_ok_iff.mp hrs
    obtain ⟨rfl, rfl⟩ := List.cons.inj (pure_eq_ok_iff.mp hrs)
    change List.mapM read.var (write.var _ :: List.mapM write.var _) = _
    rw [List.mapM_cons, h.var hr, ok_bind, ih hrest]
    rfl

lemma Spawn.restore (h : write.Restores read keep) {a : Spawn S} (ha : a.change keep = .ok a) :
    (Spawn.change write a).change read = .ok a := by
  obtain ⟨callee, take, give⟩ := a
  rw [change] at ha
  obtain ⟨_, hcallee, ha⟩ := bind_eq_ok_iff.mp ha
  obtain ⟨_, hgive, ha⟩ := bind_eq_ok_iff.mp ha
  obtain ⟨rfl, -, rfl⟩ := Spawn.mk.inj (pure_eq_ok_iff.mp ha)
  refine bind_eq_ok_iff.mpr ⟨_, h.callee hcallee, ?_⟩
  exact bind_eq_ok_iff.mpr ⟨_, mapM_var_restore h hgive, rfl⟩

/-- Code that is left as it is can be written down and is read as it was. -/
theorem Instruction.restore (h : write.Restores read keep) {i : Instruction S}
    (hi : i.change keep = .ok i) : (Instruction.change write i).change read = .ok i := by
  cases i <;> simp [change, bind_eq_ok_iff, map_eq_ok_iff, pure_eq_ok_iff] at hi
  -- Each kind of operand is restored in its own way, several of them one after the other.
  case nop | label | «return» | «else» | endIf | breakSwitch | endSwitch | «break» | endDoWhile
    | unsure1 => rfl
  case returnVal | deleteRuntime | wait | waitMs | waitCompleted | doWhile =>
    exact map_eq_ok_iff.mpr ⟨_, Operand.restore h hi, rfl⟩
  case call | callAsThread | callAsChildThread =>
    exact map_eq_ok_iff.mpr ⟨_, Call.restore h hi, rfl⟩
  case thread | thread2 => exact map_eq_ok_iff.mpr ⟨_, Spawn.restore h hi, rfl⟩
  case «if» | elseIf | unsure2 | unsure9 =>
    exact map_eq_ok_iff.mpr ⟨_, changeTokens_restore h hi, rfl⟩
  case goto => exact map_eq_ok_iff.mpr ⟨_, h.label hi, rfl⟩
  case readTableLength => exact map_eq_ok_iff.mpr ⟨_, h.table hi, rfl⟩
  case switch | case | case2 | unsure4 => exact map_eq_ok_iff.mpr ⟨_, h.var hi, rfl⟩
  case getArgs =>
    refine bind_eq_ok_iff.mpr ⟨_, h.function hi.1, ?_⟩
    exact map_eq_ok_iff.mpr ⟨_, mapM_var_restore h hi.2, rfl⟩
  case set =>
    refine bind_eq_ok_iff.mpr ⟨_, h.var hi.1, ?_⟩
    exact map_eq_ok_iff.mpr ⟨_, Operand.restore h hi.2, rfl⟩
  case getIndex =>
    refine bind_eq_ok_iff.mpr ⟨_, h.table hi.1, bind_eq_ok_iff.mpr ⟨_, h.var hi.2.1, ?_⟩⟩
    exact map_eq_ok_iff.mpr ⟨_, h.var hi.2.2, rfl⟩
  case unsure3 =>
    refine bind_eq_ok_iff.mpr ⟨_, h.var hi.1, bind_eq_ok_iff.mpr ⟨_, h.imported hi.2.1, ?_⟩⟩
    exact map_eq_ok_iff.mpr ⟨_, h.var hi.2.2, rfl⟩
  case unsure7 =>
    refine bind_eq_ok_iff.mpr ⟨_, h.var hi.1, bind_eq_ok_iff.mpr ⟨_, h.var hi.2.1, ?_⟩⟩
    refine bind_eq_ok_iff.mpr ⟨_, h.var hi.2.2.1, ?_⟩
    exact map_eq_ok_iff.mpr ⟨_, h.var hi.2.2.2, rfl⟩
  case unsure8 =>
    refine bind_eq_ok_iff.mpr ⟨_, h.var hi.1, bind_eq_ok_iff.mpr ⟨_, h.var hi.2.1, ?_⟩⟩
    exact map_eq_ok_iff.mpr ⟨_, h.var hi.2.2, rfl⟩
  case unsure11 =>
    refine bind_eq_ok_iff.mpr ⟨_, h.var hi.1, ?_⟩
    exact map_eq_ok_iff.mpr ⟨_, h.table hi.2, rfl⟩

end Restoring

namespace Context

variable (ctx : Context)

lemma find_spell (find : Key → Except Error Symbol) {symbol : Symbol}
    (h : find (.id symbol.id) = .ok symbol) : find (Key.parse (ctx.spell symbol find)) = .ok symbol := by
  have hid : find (Key.parse (Key.spellId symbol.id)) = .ok symbol := by
    rw [Key.parse_spellId, h]
  unfold spell
  split
  case h_1 name _ =>
    split
    case h_1 found hfound =>
      split
      case isTrue he => rw [hfound, he]
      case isFalse => exact hid
    case h_2 => exact hid
  case h_2 => exact hid

lemma find_spell_of {α : Type} {find : Key → Except Error α} {toSymbol : α → Symbol}
    (hinj : Function.Injective toSymbol) {ref : α} (h : find (.id (toSymbol ref).id) = .ok ref) :
    find (Key.parse (ctx.spell (toSymbol ref) fun key => (find key).map toSymbol)) = .ok ref := by
  have hfind : (find (.id (toSymbol ref).id)).map toSymbol = .ok (toSymbol ref) := by
    rw [h]
    rfl
  have hspelt := ctx.find_spell (fun key => (find key).map toSymbol) hfind
  obtain ⟨found, hfound, he⟩ := map_eq_ok_iff.mp hspelt
  rw [hfound, hinj he]

lemma bySpelling_eq_ok_iff {α : Type} {find : Key → Except Error α} {text : String} {ref : α} :
    bySpelling find text = .ok ref ↔ find (Key.parse text) = .ok ref := by
  unfold bySpelling
  cases find (Key.parse text) <;> simp [Except.mapError]

/-- What is found by its number is found by its spelling in the same context. -/
theorem spelling_restores : ctx.spelling.Restores ctx.binding ctx.rebinding where
  symbol h := bySpelling_eq_ok_iff.mpr (ctx.find_spell _ h)
  var h := bySpelling_eq_ok_iff.mpr (ctx.find_spell_of (fun _ _ => Symbol.variable.inj) h)
  table h := bySpelling_eq_ok_iff.mpr (ctx.find_spell_of (fun _ _ => Symbol.table.inj) h)
  label h := bySpelling_eq_ok_iff.mpr (ctx.find_spell_of (fun _ _ => Symbol.label.inj) h)
  callee {callee} h := by
    have hinj : Function.Injective Callee.toSymbol := by
      intro a b hab
      cases a <;> cases b <;> cases hab <;> rfl
    refine bySpelling_eq_ok_iff.mpr (ctx.find_spell_of hinj ?_)
    cases callee <;> exact h
  imported h := bySpelling_eq_ok_iff.mpr (ctx.find_spell_of (fun _ _ => Symbol.imported.inj) h)
  function h := bySpelling_eq_ok_iff.mpr (ctx.find_spell_of (fun _ _ => Symbol.function.inj) h)
  operator _ := by simp only [binding, spelling, Operator.ofSymbol?_symbol]

end Context

end ScriptContainer
