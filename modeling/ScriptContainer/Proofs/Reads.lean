import Mathlib.Tactic.IntervalCases
import ScriptContainer.Bytes.Reader
import ScriptContainer.Proofs.RecordBytes

/-!
# Reading what is written

A reader shows the bytes from its offset on. A read takes up bytes if it answers the same wherever
they are shown, and moves the reader past them; reads that take up bytes one after the other take
up the bytes together.
-/

namespace ScriptContainer

namespace Reader

/-- The bytes from the offset on. -/
def Shows (r : Reader) (bytes : List UInt8) : Prop :=
  ∃ front, r.bytes.toList = front ++ bytes ∧ front.length = r.offset

def skip (r : Reader) (count : Nat) : Reader := { r with offset := r.offset + count }

variable {r : Reader} {bytes more : List UInt8}

lemma Shows.skip (h : r.Shows (bytes ++ more)) : (r.skip bytes.length).Shows more := by
  obtain ⟨front, hbytes, hfront⟩ := h
  refine ⟨front ++ bytes, ?_, ?_⟩
  · rw [List.append_assoc]
    exact hbytes
  · rw [List.length_append, hfront]
    rfl

lemma Shows.length_eq (h : r.Shows bytes) : r.offset + bytes.length = r.bytes.size := by
  obtain ⟨front, hbytes, hfront⟩ := h
  rw [← Array.length_toList, hbytes, List.length_append, hfront]

lemma skip_skip (r : Reader) (a b : Nat) : (r.skip a).skip b = r.skip (a + b) := by
  simp only [skip, Nat.add_assoc]

lemma skip_zero (r : Reader) : r.skip 0 = r := rfl

/-- A later place of the same buffer, with the bytes between the two. -/
structure Passes (r t : Reader) (bytes : List UInt8) : Prop where
  eq_skip : t = r.skip bytes.length
  taken : (r.bytes.extract r.offset t.offset).toList = bytes

lemma Passes.refl (r : Reader) : r.Passes r [] where
  eq_skip := rfl
  taken := by simp

lemma Passes.trans {t u : Reader} (h : r.Passes t bytes) (h' : t.Passes u more) :
    r.Passes u (bytes ++ more) := by
  obtain ⟨rfl, hbytes⟩ := h
  obtain ⟨rfl, hmore⟩ := h'
  refine ⟨by rw [skip_skip, List.length_append], ?_⟩
  let middle := r.offset + bytes.length
  have hleft : r.offset ≤ middle := Nat.le_add_right ..
  have hright : middle ≤ middle + more.length := Nat.le_add_right ..
  have hsplit : r.bytes.extract r.offset middle ++ r.bytes.extract middle (middle + more.length) =
      r.bytes.extract r.offset (middle + more.length) := by
    rw [Array.extract_append_extract, Nat.min_eq_left hleft, Nat.max_eq_right hright]
  change (r.bytes.extract r.offset (middle + more.length)).toList = bytes ++ more
  rw [← hsplit, Array.toList_append]
  exact congrArg₂ HAppend.hAppend hbytes hmore

lemma Passes.shows {t : Reader} (h : r.Passes t bytes) (hbytes : bytes ≠ []) :
    ∃ rest, r.Shows (bytes ++ rest) := by
  have htaken := h.taken
  rw [Array.toList_extract, List.extract_eq_take_drop] at htaken
  have hpos := List.length_pos_of_ne_nil hbytes
  have hlength := congrArg List.length htaken
  rw [List.length_take, List.length_drop, Array.length_toList] at hlength
  let rest := (r.bytes.toList.drop r.offset).drop (t.offset - r.offset)
  refine ⟨rest, r.bytes.toList.take r.offset, ?_, ?_⟩
  · rw [← htaken, List.take_append_drop, List.take_append_drop]
  · rw [List.length_take, Array.length_toList]
    omega

end Reader

/-- In a container of one of the sizes, the read takes up the bytes and answers `x`. -/
def Reads {α : Type} (sizes : Nat → Prop) (read : Read α) (bytes : List UInt8) (x : α) : Prop :=
  ∀ (r : Reader) (rest : List UInt8), sizes r.bytes.size → r.Shows (bytes ++ rest) →
    read r = .ok x (r.skip bytes.length)

/-- A container has at least `reach` bytes, and not more than words can count. -/
def Spans (reach size : Nat) : Prop := reach ≤ size ∧ size < 4 * UInt32.size

namespace Reads

variable {α β : Type} {sizes : Nat → Prop} {read : Read α} {bytes more : List UInt8} {x : α} {y : β}

lemma pure (x : α) : Reads sizes (Pure.pure x) [] x := fun _ _ _ _ => rfl

lemma bind {next : α → Read β} (h : Reads sizes read bytes x) (hn : Reads sizes (next x) more y) :
    Reads sizes (read >>= next) (bytes ++ more) y := by
  intro r rest hsize hshows
  rw [List.append_assoc] at hshows
  rw [bind_of_ok (h r _ hsize hshows), hn (r.skip bytes.length) rest hsize hshows.skip,
    Reader.skip_skip, List.length_append]

lemma map {f : α → β} (h : Reads sizes read bytes x) : Reads sizes (f <$> read) bytes (f x) :=
  fun r rest hsize hshows => map_of_ok (h r rest hsize hshows)

lemma bind_pure {next : α → Read β} (h : Reads sizes read bytes x)
    (hn : Reads sizes (next x) [] y) : Reads sizes (read >>= next) bytes y := by
  have := h.bind hn
  rwa [List.append_nil] at this

lemma offset_bind {next : Nat → Read β} (h : ∀ here, Reads sizes (next here) bytes y) :
    Reads sizes (Read.offset >>= next) bytes y :=
  fun r rest hsize hshows => h r.offset r rest hsize hshows

end Reads

lemma wordOfBytes_bytesOfWord (word : UInt32) :
    Read.wordOfBytes word.toUInt8 (word >>> 8).toUInt8 (word >>> 16).toUInt8
      (word >>> 24).toUInt8 = word := by
  apply UInt32.toBitVec_inj.mp
  apply BitVec.eq_of_getLsbD_eq
  intro i hi
  simp only [Read.wordOfBytes, UInt32.toBitVec_or, UInt32.toBitVec_shiftLeft,
    UInt8.toBitVec_toUInt32, UInt32.toBitVec_toUInt8, UInt32.toBitVec_shiftRight,
    BitVec.getLsbD_or]
  interval_cases i <;> simp

lemma bytesOfWord_wordOfBytes (a b c d : UInt8) :
    bytesOfWord (Read.wordOfBytes a b c d) = [a, b, c, d] := by
  rw [bytesOfWord, List.cons.injEq, List.cons.injEq, List.cons.injEq, List.cons.injEq]
  refine ⟨?_, ?_, ?_, ?_, rfl⟩
  all_goals
    apply UInt8.toBitVec_inj.mp
    apply BitVec.eq_of_getLsbD_eq
    intro i hi
    simp only [Read.wordOfBytes, UInt32.toBitVec_or, UInt32.toBitVec_shiftLeft,
      UInt8.toBitVec_toUInt32, UInt32.toBitVec_toUInt8, UInt32.toBitVec_shiftRight]
    interval_cases i <;> simp

namespace Read

variable {r : Reader} {rest : List UInt8}

lemma bytes_apply {bs : List UInt8} (h : r.Shows (bs ++ rest)) :
    bytes bs.length r = .ok bs (r.skip bs.length) := by
  have hlength := h.length_eq
  rw [List.length_append] at hlength
  obtain ⟨front, hbytes, hfront⟩ := h
  have hextract : (r.bytes.extract r.offset (r.offset + bs.length)).toList = bs := by
    rw [Array.toList_extract, hbytes, ← hfront]
    simp
  unfold bytes
  rw [if_pos (by omega), hextract]
  rfl

lemma word_apply {w : UInt32} (h : r.Shows (bytesOfWord w ++ rest)) : word r = .ok w (r.skip 4) := by
  have hbytes : bytes 4 r = .ok (bytesOfWord w) (r.skip 4) := bytes_apply h
  unfold word
  refine (bind_of_ok hbytes).trans ?_
  simp only [bytesOfWord, wordOfBytes_bytesOfWord]
  rfl

lemma word_passes {w : UInt32} {t : Reader} (h : word r = .ok w t) : r.Passes t (bytesOfWord w) := by
  obtain ⟨bs, middle, hbytes, hword⟩ := run_bind_eq_ok_iff.mp h
  unfold bytes at hbytes
  split at hbytes
  case isTrue hroom =>
    obtain ⟨rfl, rfl⟩ := EStateM.Result.ok.inj hbytes
    set taken := (r.bytes.extract r.offset (r.offset + 4)).toList with htaken
    have hlength : taken.length = 4 := by
      rw [htaken, Array.length_toList, Array.size_extract]
      omega
    match taken, hlength, htaken, hword with
    | [a, b, c, d], _, htaken, hword =>
      obtain ⟨rfl, rfl⟩ := EStateM.Result.ok.inj hword
      rw [bytesOfWord_wordOfBytes]
      exact ⟨rfl, htaken.symm⟩
  case isFalse => cases hbytes

end Read

namespace Reads

variable {α : Type} {sizes : Nat → Prop}

lemma bytes (bs : List UInt8) : Reads sizes (Read.bytes bs.length) bs bs :=
  fun _ _ _ hshows => Read.bytes_apply hshows

lemma word (w : UInt32) : Reads sizes Read.word (bytesOfWord w) w :=
  fun _ _ _ hshows => Read.word_apply hshows

lemma signed (value : Int32) : Reads sizes Read.signed (bytesOfWord value.toUInt32) value :=
  (word value.toUInt32).bind_pure (pure value)

lemma single (value : Number.Single) : Reads sizes Read.single (bytesOfWord value.bits) value :=
  (word value.bits).bind_pure (pure value)

lemma times_map {β : Type} {read : Read β} {bytes : α → List UInt8} {g : α → β} {xs : List α}
    (h : ∀ x ∈ xs, Reads sizes read (bytes x) (g x)) :
    Reads sizes (Read.times read xs.length) (xs.flatMap bytes) (xs.map g) := by
  induction xs with
  | nil => exact pure []
  | cons x xs ih =>
    rw [List.forall_mem_cons] at h
    exact h.1.bind ((ih h.2).bind_pure (pure _))

lemma times {read : Read α} {bytes : α → List UInt8} {xs : List α}
    (h : ∀ x ∈ xs, Reads sizes read (bytes x) x) :
    Reads sizes (Read.times read xs.length) (xs.flatMap bytes) xs := by
  have := times_map (g := fun x => x) h
  rwa [List.map_id'] at this

lemma words (ws : List UInt32) :
    Reads sizes (Read.times Read.word ws.length) (bytesOfWords ws) ws :=
  times fun w _ => word w

end Reads

lemma Read.wordsUntil_apply {r : Reader} {ws : List UInt32} {rest : List UInt8}
    (h : r.Shows (bytesOfWords ws ++ rest)) :
    wordsUntil (r.offset + 4 * ws.length) r = .ok ws (r.skip (4 * ws.length)) := by
  have hlength := h.length_eq
  rw [List.length_append, length_bytesOfWords] at hlength
  have hwords : Reads (fun _ => True) (times word ws.length) (bytesOfWords ws) ws := Reads.words ws
  have htimes : times word ws.length r = .ok ws (r.skip (bytesOfWords ws).length) :=
    hwords r rest trivial h
  have hcount : (r.offset + 4 * ws.length - r.offset) / 4 = ws.length := by omega
  unfold wordsUntil
  rw [bind_of_ok (rfl : offset r = .ok r.offset r),
    bind_of_ok (rfl : length r = .ok r.bytes.size r), if_neg (by omega), if_neg (by omega), hcount,
    htimes, length_bytesOfWords]

end ScriptContainer
