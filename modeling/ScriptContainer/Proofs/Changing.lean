import ScriptContainer.Instruction.Change
import ScriptContainer.Instruction.Words
import ScriptContainer.Proofs.Outcomes

/-!
# Code in another form

Changing the references of code keeps its shape, and with it the sizes, opcodes and flags. It fails
only where a reference fails, two changes after each other are one, and code whose references stay
as they are stays as it is.
-/

namespace ScriptContainer

variable {S T : Slots} {f : S.Change T (Except Error)}

mutual

lemma Token.size_change : ∀ {t : Token S} {u : Token T}, t.change f = .ok u → u.size = t.size
  | .symbol _, _, h => by
    obtain ⟨_, -, rfl⟩ := map_eq_ok_iff.mp h
    rfl
  | .operator _, _, h => by
    obtain ⟨_, -, rfl⟩ := map_eq_ok_iff.mp h
    rfl
  | .call c, _, h => by
    obtain ⟨d, hd, rfl⟩ := map_eq_ok_iff.mp h
    rw [Token.size, Token.size, Call.size_change hd false]

lemma Call.size_change : ∀ {c : Call S} {d : Call T}, c.change f = .ok d →
    ∀ constant, d.size constant = c.size constant
  | ⟨_, args⟩, _, h, constant => by
    rw [Call.change] at h
    obtain ⟨_, -, h⟩ := bind_eq_ok_iff.mp h
    obtain ⟨args', hargs, h⟩ := bind_eq_ok_iff.mp h
    obtain rfl := pure_eq_ok_iff.mp h
    rw [Call.size, Call.size, argumentsSize_change hargs constant]

lemma Argument.size_change : ∀ {a : Argument S} {b : Argument T}, a.change f = .ok b →
    ∀ constant, b.size constant = a.size constant
  | .symbol _, _, h, constant => by
    obtain ⟨_, -, rfl⟩ := map_eq_ok_iff.mp h
    rfl
  | .expr tokens, _, h, constant => by
    obtain ⟨tokens', ht, rfl⟩ := map_eq_ok_iff.mp h
    rw [Argument.size, Argument.size, tokensSize_change ht]

lemma argumentsSize_change : ∀ {as : List (Argument S)} {bs : List (Argument T)},
    changeArguments f as = .ok bs → ∀ constant, argumentsSize constant bs = argumentsSize constant as
  | [], _, h, _ => by
    obtain rfl := pure_eq_ok_iff.mp h
    rfl
  | a :: as, _, h, constant => by
    rw [changeArguments] at h
    obtain ⟨b, hb, h⟩ := bind_eq_ok_iff.mp h
    obtain ⟨bs, hbs, h⟩ := bind_eq_ok_iff.mp h
    obtain rfl := pure_eq_ok_iff.mp h
    rw [argumentsSize, argumentsSize, Argument.size_change hb constant,
      argumentsSize_change hbs constant]

lemma tokensSize_change : ∀ {ts : List (Token S)} {us : List (Token T)},
    changeTokens f ts = .ok us → tokensSize us = tokensSize ts
  | [], _, h => by
    obtain rfl := pure_eq_ok_iff.mp h
    rfl
  | t :: ts, _, h => by
    rw [changeTokens] at h
    obtain ⟨u, hu, h⟩ := bind_eq_ok_iff.mp h
    obtain ⟨us, hus, h⟩ := bind_eq_ok_iff.mp h
    obtain rfl := pure_eq_ok_iff.mp h
    rw [tokensSize, tokensSize, Token.size_change hu, tokensSize_change hus]

end

lemma Argument.isSymbol_change {a : Argument S} {b : Argument T} (h : a.change f = .ok b) :
    b.isSymbol = a.isSymbol := by
  cases a with
  | symbol ref =>
    obtain ⟨_, -, rfl⟩ := map_eq_ok_iff.mp h
    rfl
  | expr tokens =>
    obtain ⟨_, -, rfl⟩ := map_eq_ok_iff.mp h
    rfl

lemma all_isSymbol_change {as : List (Argument S)} {bs : List (Argument T)}
    (h : changeArguments f as = .ok bs) : bs.all Argument.isSymbol = as.all Argument.isSymbol := by
  induction as generalizing bs with
  | nil =>
    obtain rfl := pure_eq_ok_iff.mp h
    rfl
  | cons a as ih =>
    rw [changeArguments] at h
    obtain ⟨b, hb, h⟩ := bind_eq_ok_iff.mp h
    obtain ⟨bs, hbs, h⟩ := bind_eq_ok_iff.mp h
    obtain rfl := pure_eq_ok_iff.mp h
    rw [List.all_cons, List.all_cons, Argument.isSymbol_change hb, ih hbs]

lemma Call.isConstant_change {c : Call S} {d : Call T} (h : c.change f = .ok d) :
    d.isConstant = c.isConstant := by
  obtain ⟨callee, args⟩ := c
  rw [change] at h
  obtain ⟨_, -, h⟩ := bind_eq_ok_iff.mp h
  obtain ⟨args', hargs, h⟩ := bind_eq_ok_iff.mp h
  obtain rfl := pure_eq_ok_iff.mp h
  exact all_isSymbol_change hargs

lemma isEmpty_changeTokens {ts : List (Token S)} {us : List (Token T)}
    (h : changeTokens f ts = .ok us) : us.isEmpty = ts.isEmpty := by
  cases ts with
  | nil =>
    obtain rfl := pure_eq_ok_iff.mp h
    rfl
  | cons t ts =>
    rw [changeTokens] at h
    obtain ⟨_, -, h⟩ := bind_eq_ok_iff.mp h
    obtain ⟨_, -, h⟩ := bind_eq_ok_iff.mp h
    obtain rfl := pure_eq_ok_iff.mp h
    rfl

namespace Operand

variable {a : Operand S} {b : Operand T}

lemma isConstant_change (h : a.change f = .ok b) : b.isConstant = a.isConstant := by
  cases a with
  | var ref =>
    obtain ⟨_, -, rfl⟩ := map_eq_ok_iff.mp h
    rfl
  | expr tokens =>
    obtain ⟨_, ht, rfl⟩ := map_eq_ok_iff.mp h
    exact isEmpty_changeTokens ht

lemma size_change (h : a.change f = .ok b) : b.size = a.size := by
  cases a with
  | var ref =>
    obtain ⟨_, -, rfl⟩ := map_eq_ok_iff.mp h
    rfl
  | expr tokens =>
    obtain ⟨_, ht, rfl⟩ := map_eq_ok_iff.mp h
    rw [size, size, expressionSize, expressionSize, tokensSize_change ht]

end Operand

lemma Spawn.size_change {a : Spawn S} {b : Spawn T} (h : a.change f = .ok b) :
    b.size = a.size := by
  rw [change] at h
  obtain ⟨_, -, h⟩ := bind_eq_ok_iff.mp h
  obtain ⟨give, hgive, h⟩ := bind_eq_ok_iff.mp h
  obtain rfl := pure_eq_ok_iff.mp h
  rw [size, size, (mapM_eq_ok_iff.mp hgive).length_eq]

namespace Instruction

variable {i : Instruction S} {j : Instruction T}

lemma opcode_change (h : i.change f = .ok j) : j.opcode = i.opcode := by
  cases i <;>
    simp only [change, bind_eq_ok_iff, map_eq_ok_iff, pure_eq_ok_iff] at h <;>
    grind [opcode]

lemma isConstant_change (h : i.change f = .ok j) : j.isConstant = i.isConstant := by
  cases i <;>
    simp only [change, bind_eq_ok_iff, map_eq_ok_iff, pure_eq_ok_iff] at h <;>
    grind [isConstant, Operand.isConstant_change, Call.isConstant_change, isEmpty_changeTokens]

lemma operandSize_change (h : i.change f = .ok j) : j.operandSize = i.operandSize := by
  cases i <;>
    simp only [change, bind_eq_ok_iff, map_eq_ok_iff, pure_eq_ok_iff, mapM_eq_ok_iff] at h <;>
    grind [operandSize, expressionSize, Operand.size_change, Call.isConstant_change,
      Call.size_change, Spawn.size_change, tokensSize_change, List.Forall₂.length_eq]

lemma size_change (h : i.change f = .ok j) : j.size = i.size := by
  rw [size, size, operandSize_change h]

end Instruction

/-- Every failure of a reference is one of `bad`. -/
structure Slots.Change.FailsOnly (f : S.Change T (Except Error)) (bad : Error → Prop) : Prop where
  symbol : ∀ {r e}, f.symbol r = .error e → bad e
  var : ∀ {r e}, f.var r = .error e → bad e
  table : ∀ {r e}, f.table r = .error e → bad e
  label : ∀ {r e}, f.label r = .error e → bad e
  callee : ∀ {r e}, f.callee r = .error e → bad e
  imported : ∀ {r e}, f.imported r = .error e → bad e
  function : ∀ {r e}, f.function r = .error e → bad e
  operator : ∀ {r e}, f.operator r = .error e → bad e

section Failing

variable {bad : Error → Prop} {e : Error}

mutual

lemma Token.change_error (hf : f.FailsOnly bad) :
    ∀ {t : Token S}, t.change f = .error e → bad e
  | .symbol _, h => hf.symbol (map_eq_error_iff.mp h)
  | .operator _, h => hf.operator (map_eq_error_iff.mp h)
  | .call _, h => Call.change_error hf (map_eq_error_iff.mp h)

lemma Call.change_error (hf : f.FailsOnly bad) :
    ∀ {c : Call S}, c.change f = .error e → bad e
  | ⟨_, _⟩, h => by
    rw [Call.change] at h
    rcases bind_eq_error_iff.mp h with h | ⟨_, -, h⟩
    · exact hf.callee h
    rcases bind_eq_error_iff.mp h with h | ⟨_, -, h⟩
    · exact changeArguments_error hf h
    · cases h

lemma Argument.change_error (hf : f.FailsOnly bad) :
    ∀ {a : Argument S}, a.change f = .error e → bad e
  | .symbol _, h => hf.symbol (map_eq_error_iff.mp h)
  | .expr _, h => changeTokens_error hf (map_eq_error_iff.mp h)

lemma changeArguments_error (hf : f.FailsOnly bad) :
    ∀ {as : List (Argument S)}, changeArguments f as = .error e → bad e
  | [], h => by cases h
  | _ :: _, h => by
    rw [changeArguments] at h
    rcases bind_eq_error_iff.mp h with h | ⟨_, -, h⟩
    · exact Argument.change_error hf h
    rcases bind_eq_error_iff.mp h with h | ⟨_, -, h⟩
    · exact changeArguments_error hf h
    · cases h

lemma changeTokens_error (hf : f.FailsOnly bad) :
    ∀ {ts : List (Token S)}, changeTokens f ts = .error e → bad e
  | [], h => by cases h
  | _ :: _, h => by
    rw [changeTokens] at h
    rcases bind_eq_error_iff.mp h with h | ⟨_, -, h⟩
    · exact Token.change_error hf h
    rcases bind_eq_error_iff.mp h with h | ⟨_, -, h⟩
    · exact changeTokens_error hf h
    · cases h

end

lemma Operand.change_error (hf : f.FailsOnly bad) {a : Operand S} (h : a.change f = .error e) :
    bad e := by
  cases a with
  | var ref => exact hf.var (map_eq_error_iff.mp h)
  | expr tokens => exact changeTokens_error hf (map_eq_error_iff.mp h)

lemma mapM_var_error (hf : f.FailsOnly bad) {rs : List S.var} (h : rs.mapM f.var = .error e) :
    bad e := by
  obtain ⟨r, -, h⟩ := mapM_eq_error h
  exact hf.var h

lemma Spawn.change_error (hf : f.FailsOnly bad) {a : Spawn S} (h : a.change f = .error e) : bad e := by
  rw [change] at h
  rcases bind_eq_error_iff.mp h with h | ⟨_, -, h⟩
  · exact hf.callee h
  rcases bind_eq_error_iff.mp h with h | ⟨_, -, h⟩
  · exact mapM_var_error hf h
  · cases h

lemma Instruction.change_error (hf : f.FailsOnly bad) {i : Instruction S}
    (h : i.change f = .error e) : bad e := by
  have hpure {α : Type} {a : α} : (pure a : Except Error α) ≠ .error e := by
    intro h
    cases h
  cases i <;>
    simp only [change, bind_eq_error_iff, map_eq_error_iff, hpure, and_false, exists_false,
      or_false] at h <;>
    grind [Slots.Change.FailsOnly, Operand.change_error, Call.change_error, Spawn.change_error,
      changeTokens_error, mapM_var_error]

end Failing

/-- Changing by one change and then by another is changing by a third one. -/
structure Slots.Change.Then {S T U : Slots} (f : S.Change T (Except Error))
    (g : T.Change U (Except Error)) (k : S.Change U (Except Error)) : Prop where
  symbol : ∀ {r w}, f.symbol r = .ok w → g.symbol w = k.symbol r
  var : ∀ {r w}, f.var r = .ok w → g.var w = k.var r
  table : ∀ {r w}, f.table r = .ok w → g.table w = k.table r
  label : ∀ {r w}, f.label r = .ok w → g.label w = k.label r
  callee : ∀ {r w}, f.callee r = .ok w → g.callee w = k.callee r
  imported : ∀ {r w}, f.imported r = .ok w → g.imported w = k.imported r
  function : ∀ {r w}, f.function r = .ok w → g.function w = k.function r
  operator : ∀ {r w}, f.operator r = .ok w → g.operator w = k.operator r

section Composing

variable {U : Slots} {g : T.Change U (Except Error)} {k : S.Change U (Except Error)}

mutual

lemma Token.change_change (hk : f.Then g k) : ∀ {t : Token S} {u : Token T},
    t.change f = .ok u → u.change g = t.change k
  | .symbol _, _, h => by
    obtain ⟨_, hr, rfl⟩ := map_eq_ok_iff.mp h
    rw [Token.change, Token.change, hk.symbol hr]
  | .operator _, _, h => by
    obtain ⟨_, hr, rfl⟩ := map_eq_ok_iff.mp h
    rw [Token.change, Token.change, hk.operator hr]
  | .call _, _, h => by
    obtain ⟨_, hc, rfl⟩ := map_eq_ok_iff.mp h
    rw [Token.change, Token.change, Call.change_change hk hc]

lemma Call.change_change (hk : f.Then g k) : ∀ {c : Call S} {d : Call T},
    c.change f = .ok d → d.change g = c.change k
  | ⟨_, _⟩, _, h => by
    rw [Call.change] at h
    obtain ⟨_, hc, h⟩ := bind_eq_ok_iff.mp h
    obtain ⟨_, ha, h⟩ := bind_eq_ok_iff.mp h
    obtain rfl := pure_eq_ok_iff.mp h
    rw [Call.change, Call.change, hk.callee hc, changeArguments_change hk ha]

lemma Argument.change_change (hk : f.Then g k) : ∀ {a : Argument S} {b : Argument T},
    a.change f = .ok b → b.change g = a.change k
  | .symbol _, _, h => by
    obtain ⟨_, hr, rfl⟩ := map_eq_ok_iff.mp h
    rw [Argument.change, Argument.change, hk.symbol hr]
  | .expr _, _, h => by
    obtain ⟨_, ht, rfl⟩ := map_eq_ok_iff.mp h
    rw [Argument.change, Argument.change, changeTokens_change hk ht]

lemma changeArguments_change (hk : f.Then g k) : ∀ {as : List (Argument S)}
    {bs : List (Argument T)}, changeArguments f as = .ok bs →
      changeArguments g bs = changeArguments k as
  | [], _, h => by
    obtain rfl := pure_eq_ok_iff.mp h
    rfl
  | _ :: _, _, h => by
    rw [changeArguments] at h
    obtain ⟨_, ha, h⟩ := bind_eq_ok_iff.mp h
    obtain ⟨_, has, h⟩ := bind_eq_ok_iff.mp h
    obtain rfl := pure_eq_ok_iff.mp h
    rw [changeArguments, changeArguments, Argument.change_change hk ha,
      changeArguments_change hk has]

lemma changeTokens_change (hk : f.Then g k) : ∀ {ts : List (Token S)} {us : List (Token T)},
    changeTokens f ts = .ok us → changeTokens g us = changeTokens k ts
  | [], _, h => by
    obtain rfl := pure_eq_ok_iff.mp h
    rfl
  | _ :: _, _, h => by
    rw [changeTokens] at h
    obtain ⟨_, ht, h⟩ := bind_eq_ok_iff.mp h
    obtain ⟨_, hts, h⟩ := bind_eq_ok_iff.mp h
    obtain rfl := pure_eq_ok_iff.mp h
    rw [changeTokens, changeTokens, Token.change_change hk ht, changeTokens_change hk hts]

end

lemma Operand.change_change (hk : f.Then g k) {a : Operand S} {b : Operand T}
    (h : a.change f = .ok b) : b.change g = a.change k := by
  cases a with
  | var ref =>
    obtain ⟨_, hr, rfl⟩ := map_eq_ok_iff.mp h
    rw [change, change, hk.var hr]
  | expr tokens =>
    obtain ⟨_, ht, rfl⟩ := map_eq_ok_iff.mp h
    rw [change, change, changeTokens_change hk ht]

lemma mapM_var_change (hk : f.Then g k) {rs : List S.var} {ws : List T.var}
    (h : rs.mapM f.var = .ok ws) : ws.mapM g.var = rs.mapM k.var := by
  induction rs generalizing ws with
  | nil =>
    obtain rfl := pure_eq_ok_iff.mp h
    rfl
  | cons r rs ih =>
    rw [List.mapM_cons] at h
    obtain ⟨_, hr, h⟩ := bind_eq_ok_iff.mp h
    obtain ⟨_, hrs, h⟩ := bind_eq_ok_iff.mp h
    obtain rfl := pure_eq_ok_iff.mp h
    rw [List.mapM_cons, List.mapM_cons, hk.var hr, ih hrs]

lemma Spawn.change_change (hk : f.Then g k) {a : Spawn S} {b : Spawn T}
    (h : a.change f = .ok b) : b.change g = a.change k := by
  rw [change] at h
  obtain ⟨_, hc, h⟩ := bind_eq_ok_iff.mp h
  obtain ⟨_, hg, h⟩ := bind_eq_ok_iff.mp h
  obtain rfl := pure_eq_ok_iff.mp h
  rw [change, change, hk.callee hc, mapM_var_change hk hg]

lemma Instruction.change_change (hk : f.Then g k) {i : Instruction S} {j : Instruction T}
    (h : i.change f = .ok j) : j.change g = i.change k := by
  cases i <;> simp only [change, bind_eq_ok_iff, map_eq_ok_iff, pure_eq_ok_iff] at h
  -- Each reference that `f` has changed yields an equation between `g` and `k`.
  all_goals
    repeat
      obtain ⟨_, hw, h⟩ := h
      first
        | replace hw := hk.var hw
        | replace hw := hk.table hw
        | replace hw := hk.label hw
        | replace hw := hk.imported hw
        | replace hw := hk.function hw
        | replace hw := Operand.change_change hk hw
        | replace hw := Call.change_change hk hw
        | replace hw := Spawn.change_change hk hw
        | replace hw := changeTokens_change hk hw
        | replace hw := mapM_var_change hk hw
    subst h
    simp only [change, *]

end Composing

section Staying

variable {ε : Type}

/-- References that stay as they are. -/
def Slots.Change.same (S : Slots) (ε : Type) : S.Change S (Except ε) where
  symbol := .ok
  var := .ok
  table := .ok
  label := .ok
  callee := .ok
  imported := .ok
  function := .ok
  operator := .ok

mutual

lemma Token.change_same : ∀ t : Token S, t.change (.same S ε) = .ok t
  | .symbol _ => rfl
  | .operator _ => rfl
  | .call c => by rw [Token.change, Call.change_same c]; rfl

lemma Call.change_same : ∀ c : Call S, c.change (.same S ε) = .ok c
  | ⟨_, args⟩ => by
    rw [Call.change, changeArguments_same args]
    rfl

lemma Argument.change_same : ∀ a : Argument S, a.change (.same S ε) = .ok a
  | .symbol _ => rfl
  | .expr tokens => by rw [Argument.change, changeTokens_same tokens]; rfl

lemma changeArguments_same : ∀ as : List (Argument S), changeArguments (.same S ε) as = .ok as
  | [] => rfl
  | a :: as => by
    rw [changeArguments, Argument.change_same a, ok_bind, changeArguments_same as]
    rfl

lemma changeTokens_same : ∀ ts : List (Token S), changeTokens (.same S ε) ts = .ok ts
  | [] => rfl
  | t :: ts => by
    rw [changeTokens, Token.change_same t, ok_bind, changeTokens_same ts]
    rfl

end

lemma Operand.change_same : ∀ a : Operand S, a.change (.same S ε) = .ok a
  | var _ => rfl
  | expr tokens => by rw [change, changeTokens_same tokens]; rfl

lemma mapM_var_same (refs : List S.var) : refs.mapM (Slots.Change.same S ε).var = .ok refs :=
  mapM_ok refs

lemma Spawn.change_same (a : Spawn S) : a.change (.same S ε) = .ok a := by
  rw [change, mapM_var_same]
  rfl

lemma Instruction.change_same (i : Instruction S) : i.change (.same S ε) = .ok i := by
  cases i <;>
    simp only [change, Operand.change_same, Call.change_same, Spawn.change_same, changeTokens_same,
      mapM_var_same] <;>
    rfl

end Staying

/-- Every reference that one change makes can be changed by the other. -/
structure Slots.Change.Feeds {S T U : Slots} {ε ε' : Type} (f : S.Change T (Except ε))
    (g : T.Change U (Except ε')) : Prop where
  symbol : ∀ {r w}, f.symbol r = .ok w → ∃ v, g.symbol w = .ok v
  var : ∀ {r w}, f.var r = .ok w → ∃ v, g.var w = .ok v
  table : ∀ {r w}, f.table r = .ok w → ∃ v, g.table w = .ok v
  label : ∀ {r w}, f.label r = .ok w → ∃ v, g.label w = .ok v
  callee : ∀ {r w}, f.callee r = .ok w → ∃ v, g.callee w = .ok v
  imported : ∀ {r w}, f.imported r = .ok w → ∃ v, g.imported w = .ok v
  function : ∀ {r w}, f.function r = .ok w → ∃ v, g.function w = .ok v
  operator : ∀ {r w}, f.operator r = .ok w → ∃ v, g.operator w = .ok v

section Feeding

variable {U : Slots} {ε ε' : Type} {f : S.Change T (Except ε)} {g : T.Change U (Except ε')}

mutual

lemma Token.exists_change (hfg : f.Feeds g) : ∀ {t : Token S} {u : Token T},
    t.change f = .ok u → ∃ v, u.change g = .ok v
  | .symbol _, _, h => by
    obtain ⟨_, hr, rfl⟩ := map_eq_ok_iff.mp h
    obtain ⟨v, hv⟩ := hfg.symbol hr
    exact ⟨.symbol v, map_eq_ok_iff.mpr ⟨v, hv, rfl⟩⟩
  | .operator _, _, h => by
    obtain ⟨_, hr, rfl⟩ := map_eq_ok_iff.mp h
    obtain ⟨v, hv⟩ := hfg.operator hr
    exact ⟨.operator v, map_eq_ok_iff.mpr ⟨v, hv, rfl⟩⟩
  | .call _, _, h => by
    obtain ⟨_, hc, rfl⟩ := map_eq_ok_iff.mp h
    obtain ⟨v, hv⟩ := Call.exists_change hfg hc
    exact ⟨.call v, map_eq_ok_iff.mpr ⟨v, hv, rfl⟩⟩

lemma Call.exists_change (hfg : f.Feeds g) : ∀ {c : Call S} {d : Call T},
    c.change f = .ok d → ∃ e, d.change g = .ok e
  | ⟨_, _⟩, _, h => by
    rw [Call.change] at h
    obtain ⟨_, hc, h⟩ := bind_eq_ok_iff.mp h
    obtain ⟨_, ha, h⟩ := bind_eq_ok_iff.mp h
    obtain rfl := pure_eq_ok_iff.mp h
    obtain ⟨callee, hcallee⟩ := hfg.callee hc
    obtain ⟨args, hargs⟩ := changeArguments_exists hfg ha
    exact ⟨⟨callee, args⟩, by rw [Call.change, hcallee, ok_bind, hargs]; rfl⟩

lemma Argument.exists_change (hfg : f.Feeds g) : ∀ {a : Argument S} {b : Argument T},
    a.change f = .ok b → ∃ c, b.change g = .ok c
  | .symbol _, _, h => by
    obtain ⟨_, hr, rfl⟩ := map_eq_ok_iff.mp h
    obtain ⟨v, hv⟩ := hfg.symbol hr
    exact ⟨.symbol v, map_eq_ok_iff.mpr ⟨v, hv, rfl⟩⟩
  | .expr _, _, h => by
    obtain ⟨_, ht, rfl⟩ := map_eq_ok_iff.mp h
    obtain ⟨tokens, htokens⟩ := changeTokens_exists hfg ht
    exact ⟨.expr tokens, map_eq_ok_iff.mpr ⟨tokens, htokens, rfl⟩⟩

lemma changeArguments_exists (hfg : f.Feeds g) : ∀ {as : List (Argument S)}
    {bs : List (Argument T)}, changeArguments f as = .ok bs → ∃ cs, changeArguments g bs = .ok cs
  | [], _, h => by
    obtain rfl := pure_eq_ok_iff.mp h
    exact ⟨[], rfl⟩
  | _ :: _, _, h => by
    rw [changeArguments] at h
    obtain ⟨_, ha, h⟩ := bind_eq_ok_iff.mp h
    obtain ⟨_, has, h⟩ := bind_eq_ok_iff.mp h
    obtain rfl := pure_eq_ok_iff.mp h
    obtain ⟨c, hc⟩ := Argument.exists_change hfg ha
    obtain ⟨cs, hcs⟩ := changeArguments_exists hfg has
    exact ⟨c :: cs, by rw [changeArguments, hc, ok_bind, hcs]; rfl⟩

lemma changeTokens_exists (hfg : f.Feeds g) : ∀ {ts : List (Token S)} {us : List (Token T)},
    changeTokens f ts = .ok us → ∃ vs, changeTokens g us = .ok vs
  | [], _, h => by
    obtain rfl := pure_eq_ok_iff.mp h
    exact ⟨[], rfl⟩
  | _ :: _, _, h => by
    rw [changeTokens] at h
    obtain ⟨_, ht, h⟩ := bind_eq_ok_iff.mp h
    obtain ⟨_, hts, h⟩ := bind_eq_ok_iff.mp h
    obtain rfl := pure_eq_ok_iff.mp h
    obtain ⟨v, hv⟩ := Token.exists_change hfg ht
    obtain ⟨vs, hvs⟩ := changeTokens_exists hfg hts
    exact ⟨v :: vs, by rw [changeTokens, hv, ok_bind, hvs]; rfl⟩

end

lemma Operand.exists_change (hfg : f.Feeds g) {a : Operand S} {b : Operand T}
    (h : a.change f = .ok b) : ∃ c, b.change g = .ok c := by
  cases a with
  | var ref =>
    obtain ⟨_, hr, rfl⟩ := map_eq_ok_iff.mp h
    obtain ⟨v, hv⟩ := hfg.var hr
    exact ⟨.var v, map_eq_ok_iff.mpr ⟨v, hv, rfl⟩⟩
  | expr tokens =>
    obtain ⟨_, ht, rfl⟩ := map_eq_ok_iff.mp h
    obtain ⟨tokens, htokens⟩ := changeTokens_exists hfg ht
    exact ⟨.expr tokens, map_eq_ok_iff.mpr ⟨tokens, htokens, rfl⟩⟩

lemma mapM_var_exists (hfg : f.Feeds g) {rs : List S.var} {ws : List T.var}
    (h : rs.mapM f.var = .ok ws) : ∃ vs, ws.mapM g.var = .ok vs := by
  induction rs generalizing ws with
  | nil =>
    obtain rfl := pure_eq_ok_iff.mp h
    exact ⟨[], rfl⟩
  | cons r rs ih =>
    rw [List.mapM_cons] at h
    obtain ⟨_, hr, h⟩ := bind_eq_ok_iff.mp h
    obtain ⟨_, hrs, h⟩ := bind_eq_ok_iff.mp h
    obtain rfl := pure_eq_ok_iff.mp h
    obtain ⟨v, hv⟩ := hfg.var hr
    obtain ⟨vs, hvs⟩ := ih hrs
    exact ⟨v :: vs, by rw [List.mapM_cons, hv, ok_bind, hvs]; rfl⟩

lemma Spawn.exists_change (hfg : f.Feeds g) {a : Spawn S} {b : Spawn T} (h : a.change f = .ok b) :
    ∃ c, b.change g = .ok c := by
  rw [change] at h
  obtain ⟨_, hc, h⟩ := bind_eq_ok_iff.mp h
  obtain ⟨_, hgive, h⟩ := bind_eq_ok_iff.mp h
  obtain rfl := pure_eq_ok_iff.mp h
  obtain ⟨callee, hcallee⟩ := hfg.callee hc
  obtain ⟨give, hgive⟩ := mapM_var_exists hfg hgive
  exact ⟨⟨callee, _, give⟩, by rw [change, hcallee, ok_bind, hgive]; rfl⟩

lemma Instruction.exists_change (hfg : f.Feeds g) {i : Instruction S} {j : Instruction T}
    (h : i.change f = .ok j) : ∃ k, j.change g = .ok k := by
  cases i <;> simp only [change, bind_eq_ok_iff, map_eq_ok_iff, pure_eq_ok_iff] at h
  -- Each reference that `f` has made is one that `g` can change.
  all_goals
    repeat
      obtain ⟨_, hw, h⟩ := h
      first
        | replace hw := hfg.var hw
        | replace hw := hfg.table hw
        | replace hw := hfg.label hw
        | replace hw := hfg.imported hw
        | replace hw := hfg.function hw
        | replace hw := Operand.exists_change hfg hw
        | replace hw := Call.exists_change hfg hw
        | replace hw := Spawn.exists_change hfg hw
        | replace hw := changeTokens_exists hfg hw
        | replace hw := mapM_var_exists hfg hw
      obtain ⟨_, hw⟩ := hw
    subst h
    exact ⟨_, by simp only [change, *]; rfl⟩

end Feeding

end ScriptContainer
