import ScriptContainer.Instruction.Words
import ScriptContainer.Proofs.Changing

/-!
# The size of encoded code

The words of code take the bytes that its size counts, whatever its references are numbered as. An
instruction can fail to be encoded only for a reference to a record that the script does not hold.
-/

namespace ScriptContainer

mutual

lemma Token.length_words : ∀ t : Token .numbered, 4 * t.words.length = t.size
  | .symbol _ => rfl
  | .operator _ => rfl
  | .call c => by
    have := Call.length_words false c
    rw [Token.words, Token.size, List.length_cons]
    omega

lemma Call.length_words (constant : Bool) : ∀ c : Call .numbered,
    4 * (c.words constant).length = c.size constant
  | ⟨_, args⟩ => by
    have := length_argumentWords constant args
    rw [Call.words, Call.size, List.length_cons]
    omega

lemma Argument.length_words (constant : Bool) : ∀ a : Argument .numbered,
    4 * (a.words constant).length = a.size constant
  | .symbol _ => by cases constant <;> rfl
  | .expr tokens => by
    rw [Argument.words, Argument.size]
    exact length_expressionWords tokens

lemma length_argumentWords (constant : Bool) : ∀ as : List (Argument .numbered),
    4 * (argumentWords constant as).length = argumentsSize constant as + 4
  | [] => rfl
  | a :: as => by
    have := Argument.length_words constant a
    have := length_argumentWords constant as
    rw [argumentWords, argumentsSize, List.length_append]
    omega

lemma length_expressionWords : ∀ ts : List (Token .numbered),
    4 * (expressionWords ts).length = tokensSize ts + 4
  | [] => rfl
  | t :: ts => by
    have := Token.length_words t
    have := length_expressionWords ts
    rw [expressionWords, tokensSize, List.length_append]
    omega

end

lemma Operand.length_words (a : Operand .numbered) : 4 * a.words.length = a.size := by
  cases a with
  | var ref => rfl
  | expr tokens => exact length_expressionWords tokens

lemma Spawn.length_words (a : Spawn .numbered) : 4 * a.words.length = a.size := by
  simp only [words, size, List.length_cons, List.length_append, List.length_nil]
  omega

namespace Instruction

lemma length_operandWords (i : Instruction .numbered) :
    4 * i.operandWords.length = i.operandSize := by
  cases i <;>
    simp only [operandWords, operandSize, expressionSize, List.length_append, List.length_cons,
      List.length_nil, Operand.length_words, Spawn.length_words, Call.length_words,
      length_expressionWords, Nat.mul_add] <;>
    omega

lemma length_words (i : Instruction .numbered) : 4 * i.words.length = i.size := by
  have := i.length_operandWords
  rw [words, size, List.length_cons]
  omega

end Instruction

/-- The failure to find the record of a reference. -/
def Error.IsUnknown (e : Error) : Prop := ∃ kind key, e = .unknownSymbol kind key

namespace Script

variable {s : Script}

lemma check_error {symbol : Symbol} {e : Error} (h : s.check symbol = .error e) :
    e.IsUnknown := by
  unfold check at h
  split at h
  · cases h
  · obtain rfl := Except.error.inj h
    exact ⟨_, _, rfl⟩

lemma check_eq_ok {symbol : Symbol} {id : RecordId} (h : s.check symbol = .ok id) :
    id = symbol.id := by
  unfold check at h
  split at h
  · exact (Except.ok.inj h).symm
  · cases h

lemma numbering_failsOnly : s.numbering.FailsOnly Error.IsUnknown where
  symbol := check_error
  var := check_error
  table := check_error
  label := check_error
  callee := check_error
  imported := check_error
  function := check_error
  operator h := by cases h

end Script

namespace Instruction

variable {s : Script} {i : Instruction .bound} {ws : List UInt32}

lemma encode_eq_ok_iff :
    i.encode s = .ok ws ↔ ∃ n, i.change s.numbering = .ok n ∧ n.words = ws := by
  rw [encode]
  simp only [bind_eq_ok_iff, pure_eq_ok_iff]

lemma opcodeWord_change {S T : Slots} {f : S.Change T (Except Error)} {i : Instruction S}
    {j : Instruction T} (h : i.change f = .ok j) : j.opcodeWord = i.opcodeWord := by
  rw [opcodeWord, opcodeWord, opcode_change h, isConstant_change h]

lemma length_of_encode (h : i.encode s = .ok ws) : 4 * ws.length = i.size := by
  obtain ⟨n, hn, rfl⟩ := encode_eq_ok_iff.mp h
  rw [n.length_words, size_change hn]

lemma head?_of_encode (h : i.encode s = .ok ws) : ws.head? = some i.opcodeWord := by
  obtain ⟨n, hn, rfl⟩ := encode_eq_ok_iff.mp h
  rw [words, List.head?_cons, opcodeWord_change hn]

lemma encode_error {e : Error} (h : i.encode s = .error e) : e.IsUnknown := by
  rw [encode] at h
  rcases bind_eq_error_iff.mp h with h | ⟨_, -, h⟩
  · exact change_error Script.numbering_failsOnly h
  · cases h

end Instruction

end ScriptContainer
