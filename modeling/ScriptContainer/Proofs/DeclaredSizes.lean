import ScriptContainer.Proofs.Dressing
import ScriptContainer.Proofs.RecordBytes

/-!
# Declared sizes

Code takes the bytes that were counted before it was written: instructions, expressions and calls in
either shape. So offsets are known before anything is written, and setting jump targets does not
move them.
-/

namespace ScriptContainer

/-- Wherever the words are written, they take this number of bytes, which is a number of words. -/
def Fills (ws : List UInt32) (size : Nat) : Prop :=
  4 ∣ size ∧ ∀ w : Writer, (w.words ws).position = w.position + size

lemma Fills.of_length {ws : List UInt32} {size : Nat} (h : 4 * ws.length = size) :
    Fills ws size := by
  refine ⟨⟨ws.length, h.symm⟩, fun w => ?_⟩
  rw [w.words_eq, w.position_append, length_bytesOfWords, h]

section Encoded

variable {s : Script} {ws : List UInt32}

lemma fills_of_encode {i : Instruction .bound} (h : i.encode s = .ok ws) : Fills ws i.size :=
  .of_length (Instruction.length_of_encode h)

lemma fills_of_encodeExpression {tokens : Expression .bound}
    (h : encodeExpression s tokens = .ok ws) : Fills ws (expressionSize tokens) := by
  obtain ⟨ns, hns, h⟩ := bind_eq_ok_iff.mp h
  obtain rfl := pure_eq_ok_iff.mp h
  refine .of_length ?_
  rw [length_expressionWords, tokensSize_change hns, expressionSize]

lemma fills_of_encodeCall {c : Call .bound} {constant : Bool}
    (h : encodeCall s c constant = .ok ws) : Fills ws (c.size constant) := by
  obtain ⟨n, hn, h⟩ := bind_eq_ok_iff.mp h
  obtain rfl := pure_eq_ok_iff.mp h
  refine .of_length ?_
  rw [Call.length_words, Call.size_change hn]

end Encoded

/-- Whatever is encoded takes its declared size, and instructions that are the same but for their
jump targets have the same size. -/
theorem encoded_fills (s : Script) :
    (∀ i ws, Instruction.encode s i = .ok ws → Fills ws i.size) ∧
    (∀ tokens ws, encodeExpression s tokens = .ok ws → Fills ws (expressionSize tokens)) ∧
    (∀ c constant ws, encodeCall s c constant = .ok ws → Fills ws (c.size constant)) ∧
    (∀ i j : Instruction .bound, i.untargeted = j.untargeted → i.size = j.size) :=
  ⟨fun _ _ => fills_of_encode, fun _ _ => fills_of_encodeExpression,
    fun _ _ _ => fills_of_encodeCall, fun _ _ => size_eq_of_untargeted⟩

/-- A script with two functions, the first of which has a variable. -/
def stage : Script :=
  let first := (Function.new 1).addVariable ⟨3, some "cue", .owned, .int, 0, .int 0⟩
  (Script.new.addFunction first).addFunction (Function.new 2)

/-- A call with arguments of both kinds, some of which are empty or hold another call. -/
def rehearsal : Call .bound :=
  let cue : Symbol := .variable ⟨.function 1, 3⟩
  let inner : Call .bound := ⟨.function 2, [.symbol cue, .expr []]⟩
  ⟨.function 1, [.symbol cue, .expr [.call inner, .symbol cue, .operator .add], .expr []]⟩

theorem rehearsal_fills :
    (encodeCall stage rehearsal false = .ok [1, 3, 64, 12, 2, 3, 64, 64, 17, 3, 83, 64, 64, 17] ∧
      Fills [1, 3, 64, 12, 2, 3, 64, 64, 17, 3, 83, 64, 64, 17] (rehearsal.size false)) ∧
    (encodeCall stage rehearsal true = .ok [1, 3, 12, 2, 3, 64, 64, 17, 3, 83, 64, 64, 17] ∧
      Fills [1, 3, 12, 2, 3, 64, 64, 17, 3, 83, 64, 64, 17] (rehearsal.size true)) ∧
    (encodeExpression stage [.call rehearsal] =
        .ok [12, 1, 3, 64, 12, 2, 3, 64, 64, 17, 3, 83, 64, 64, 17, 64] ∧
      Fills [12, 1, 3, 64, 12, 2, 3, 64, 64, 17, 3, 83, 64, 64, 17, 64]
        (expressionSize [.call rehearsal])) ∧
    ((Instruction.if [] 7 0 0).encode stage = .ok [24, 64, 7, 0, 0] ∧
      Fills [24, 64, 7, 0, 0] (Instruction.if (S := .bound) [] 7 0 0).size) ∧
    (Instruction.if (S := .bound) [] 7 0 0).size = (Instruction.if (S := .bound) [] 0 0 0).size := by
  obtain ⟨hinstruction, hexpression, hcall, htargets⟩ := encoded_fills stage
  exact ⟨⟨rfl, hcall _ _ _ rfl⟩, ⟨rfl, hcall _ _ _ rfl⟩, ⟨rfl, hexpression _ _ rfl⟩,
    ⟨rfl, hinstruction _ _ rfl⟩, htargets _ _ rfl⟩

end ScriptContainer
