import Mathlib.Algebra.GroupWithZero.Nat
import ScriptContainer.Instruction.Words
import ScriptContainer.Proofs.Registries

/-!
# Code inside code

A function that an instruction starts as a thread stands right after the instruction, inside the
code of the starter, unless it has been reached before. A nesting is the code of a function with
the functions that stand inside it. Laying out, writing and reading the code region all go through
the same nestings, which depend on the instructions and on what has been reached, not on offsets.
-/

namespace ScriptContainer

/-- The bytes of the instructions of a body. -/
def codeSize {S : Slots} (code : Body S) : Nat := (code.map Instruction.size).sum

@[simp] lemma codeSize_nil {S : Slots} : codeSize ([] : Body S) = 0 := rfl

@[simp] lemma codeSize_cons {S : Slots} (i : Instruction S) (code : Body S) :
    codeSize (i :: code) = i.size + codeSize code := by simp [codeSize]

lemma Instruction.size_pos {S : Slots} (i : Instruction S) : 0 < i.size := by
  unfold Instruction.size
  omega

/-- The code of a function with the code of the functions that stand inside it. -/
inductive Nesting where
  | done
  /-- An instruction, and what follows it. -/
  | step (instruction : Instruction .bound) (rest : Nesting)
  /-- An instruction that starts a function, the code of the function, and what follows it. -/
  | host (instruction : Instruction .bound) (id : RecordId) (inner rest : Nesting)

/-- A function with the place of its code, in bytes from the start of the code region. -/
structure Plot where
  id : RecordId
  start : Nat
  nesting : Nesting
  /-- The code stands inside the code of another function. -/
  isInline : Bool

instance : Keyed Plot where
  id := Plot.id

namespace Nesting

/-- The instructions of the function itself. -/
def code : Nesting → Body .bound
  | done => []
  | step i rest => i :: rest.code
  | host i _ _ rest => i :: rest.code

/-- The bytes of the code, that of the functions inside included. -/
def size : Nesting → Nat
  | done => 0
  | step i rest => i.size + rest.size
  | host i _ inner rest => i.size + inner.size + rest.size

def ids : Nesting → List RecordId
  | done => []
  | step _ rest => rest.ids
  | host _ id inner rest => id :: (inner.ids ++ rest.ids)

/-- How deep functions stand inside each other. -/
def height : Nesting → Nat
  | done => 0
  | step _ rest => rest.height
  | host _ _ inner rest => max (inner.height + 1) rest.height

/-- The functions that stand inside, in the order of their code, where the code starts at
`start`. -/
def plots : Nat → Nesting → List Plot
  | _, done => []
  | start, step i rest => rest.plots (start + i.size)
  | start, host i id inner rest =>
    ⟨id, start + i.size, inner, true⟩ ::
      (inner.plots (start + i.size) ++ rest.plots (start + i.size + inner.size))

/-- The functions that stand inside, but not inside each other. -/
def guests : Nat → Nesting → List Plot
  | _, done => []
  | start, step i rest => rest.guests (start + i.size)
  | start, host i id inner rest =>
    ⟨id, start + i.size, inner, true⟩ :: rest.guests (start + i.size + inner.size)

/-- The ends of the instructions of the function itself, where the code starts at `start`. -/
def stops : Nat → Nesting → List Nat
  | _, done => []
  | start, step i rest => (start + i.size) :: rest.stops (start + i.size)
  | start, host i _ inner rest =>
    (start + i.size) :: rest.stops (start + i.size + inner.size)

/-- Every function stands after the first instruction that reaches it: where those of `seen` have
been reached, an instruction has a function behind it exactly if it starts one that has not. -/
def Proper (body? : RecordId → Option (Body .bound)) : (RecordId → Prop) → Nesting → Prop
  | _, done => True
  | seen, step i rest => (∀ id, i.spawned? = some id → seen id) ∧ rest.Proper body? seen
  | seen, host i id inner rest =>
    i.spawned? = some id ∧ ¬ seen id ∧ body? id = some inner.code ∧
      inner.Proper body? (fun x => x = id ∨ seen x) ∧
      rest.Proper body? (fun x => x ∈ id :: inner.ids ∨ seen x)

/-- Code with more instructions at its end. -/
def append : Nesting → Nesting → Nesting
  | done, more => more
  | step i rest, more => step i (rest.append more)
  | host i id inner rest, more => host i id inner (rest.append more)

end Nesting

namespace Plot

def stop (p : Plot) : Nat := p.start + p.nesting.size

end Plot

namespace Nesting

variable {body? : RecordId → Option (Body .bound)} {seen : RecordId → Prop}

lemma eq_done_of_size {n : Nesting} (h : n.size = 0) : n = done := by
  cases n with
  | done => rfl
  | step i rest =>
    have := i.size_pos
    simp only [size] at h
    omega
  | host i id inner rest =>
    have := i.size_pos
    simp only [size] at h
    omega

lemma eq_done_of_code {n : Nesting} (h : n.code = []) : n = done := by
  cases n with
  | done => rfl
  | step i rest => cases h
  | host i id inner rest => cases h

lemma length_stops (n : Nesting) (start : Nat) : (n.stops start).length = n.code.length := by
  induction n generalizing start with
  | done => rfl
  | step i rest ih => simp [stops, code, ih]
  | host i id inner rest _ ih => simp [stops, code, ih]

lemma map_id_plots (n : Nesting) (start : Nat) : (n.plots start).map Plot.id = n.ids := by
  induction n generalizing start with
  | done => rfl
  | step i rest ih => simp [plots, ids, ih]
  | host i id inner rest ihi ihr => simp [plots, ids, ihi, ihr]

lemma height_le (n : Nesting) : n.height ≤ n.ids.length := by
  induction n with
  | done => simp [height]
  | step i rest ih => simpa [height, ids] using ih
  | host i id inner rest ihi ihr =>
    simp only [height, ids, List.length_cons, List.length_append]
    omega

/-- Where functions are reached once inside a function and once after it, they are reached once in
all. -/
lemma reached_once {id : RecordId} {inner rest : List RecordId} (hid : ¬ seen id)
    (hi : inner.Nodup ∧ ∀ x ∈ inner, ¬ (x = id ∨ seen x))
    (hr : rest.Nodup ∧ ∀ x ∈ rest, ¬ (x ∈ id :: inner ∨ seen x)) :
    (id :: (inner ++ rest)).Nodup ∧ ∀ x ∈ id :: (inner ++ rest), ¬ seen x := by
  obtain ⟨hin, his⟩ := hi
  obtain ⟨hrn, hrs⟩ := hr
  simp only [List.mem_cons, not_or] at his hrs
  refine ⟨?_, ?_⟩
  · rw [List.nodup_cons, List.nodup_append, List.mem_append, not_or]
    refine ⟨⟨fun hx => (his id hx).1 rfl, fun hx => (hrs id hx).1.1 rfl⟩, hin, hrn, ?_⟩
    rintro a ha b hb rfl
    exact (hrs a hb).1.2 ha
  · intro x hx
    rw [List.mem_cons, List.mem_append] at hx
    rcases hx with rfl | hx | hx
    · exact hid
    · exact (his x hx).2
    · exact (hrs x hx).2

lemma Proper.nodup {n : Nesting} (h : n.Proper body? seen) :
    n.ids.Nodup ∧ ∀ x ∈ n.ids, ¬ seen x := by
  induction n generalizing seen with
  | done => simp [ids]
  | step i rest ih => exact ih h.2
  | host i id inner rest ihi ihr =>
    obtain ⟨-, hid, -, hi, hr⟩ := h
    exact reached_once hid (ihi hi) (ihr hr)

lemma Proper.body?_eq {n : Nesting} (h : n.Proper body? seen) {start : Nat} {p : Plot}
    (hp : p ∈ n.plots start) : body? p.id = some p.nesting.code := by
  induction n generalizing seen start with
  | done => simp [plots] at hp
  | step i rest ih => exact ih h.2 hp
  | host i id inner rest ihi ihr =>
    obtain ⟨-, -, hb, hi, hr⟩ := h
    rw [plots, List.mem_cons, List.mem_append] at hp
    rcases hp with rfl | hp | hp
    · exact hb
    · exact ihi hi hp
    · exact ihr hr hp

/-- The code of a function takes the bytes of its own instructions and those of the functions
that stand directly inside it. -/
lemma size_eq (n : Nesting) (start : Nat) :
    n.size = codeSize n.code + ((n.guests start).map fun p => p.nesting.size).sum := by
  induction n generalizing start with
  | done => rfl
  | step i rest ih =>
    simp only [size, code, guests, codeSize_cons]
    rw [ih (start + i.size)]
    omega
  | host i id inner rest _ ih =>
    simp only [size, code, guests, codeSize_cons, List.map_cons, List.sum_cons]
    rw [ih (start + i.size + inner.size)]
    omega

section Append

variable (n more : Nesting)

lemma code_append : (n.append more).code = n.code ++ more.code := by
  induction n with
  | done => rfl
  | step i rest ih => simp [append, code, ih]
  | host i id inner rest _ ih => simp [append, code, ih]

lemma size_append : (n.append more).size = n.size + more.size := by
  induction n with
  | done => simp [append, size]
  | step i rest ih => simp [append, size, ih, Nat.add_assoc]
  | host i id inner rest _ ih => simp [append, size, ih, Nat.add_assoc]

lemma plots_append (start : Nat) :
    (n.append more).plots start = n.plots start ++ more.plots (start + n.size) := by
  induction n generalizing start with
  | done => rfl
  | step i rest ih => simp [append, plots, size, ih, Nat.add_assoc]
  | host i id inner rest _ ih => simp [append, plots, size, ih, Nat.add_assoc]

end Append

lemma Proper.congr {seen' : RecordId → Prop} {n : Nesting} (h : n.Proper body? seen)
    (hs : ∀ x, seen x ↔ seen' x) : n.Proper body? seen' := by
  have : seen = seen' := funext fun x => propext (hs x)
  rwa [← this]

lemma Proper.append {n more : Nesting} (hn : n.Proper body? seen)
    (hm : more.Proper body? fun x => x ∈ n.ids ∨ seen x) : (n.append more).Proper body? seen := by
  induction n generalizing seen with
  | done => exact hm.congr fun x => by simp [ids]
  | step i rest ih => exact ⟨hn.1, ih hn.2 hm⟩
  | host i id inner rest _ ih =>
    obtain ⟨hs, hid, hb, hi, hr⟩ := hn
    refine ⟨hs, hid, hb, hi, ih hr (hm.congr fun x => ?_)⟩
    simp only [ids, List.mem_cons, List.mem_append]
    tauto

end Nesting

end ScriptContainer
