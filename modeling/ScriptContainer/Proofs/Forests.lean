import ScriptContainer.Proofs.Nesting

/-!
# The forest of a script

The functions whose code does not stand inside other code are the roots of a forest. Going through
the functions in some order, each one that has not been reached yet becomes a root, and the
functions that it reaches stand inside it.
-/

namespace ScriptContainer

/-- A function whose code does not stand inside other code. -/
structure Root where
  id : RecordId
  nesting : Nesting

namespace Root

/-- The function and those that stand inside it. -/
def ids (root : Root) : List RecordId := root.id :: root.nesting.ids

/-- The place of the function where its code starts at `start`. -/
def plot (root : Root) (start : Nat) : Plot := ⟨root.id, start, root.nesting, false⟩

/-- The place of the function and the places of those that stand inside it. -/
def plots (root : Root) (start : Nat) : List Plot := root.plot start :: root.nesting.plots start

end Root

def forestSize (roots : List Root) : Nat := (roots.map fun root => root.nesting.size).sum

def forestIds (roots : List Root) : List RecordId := roots.flatMap Root.ids

/-- The places of roots that follow each other. -/
def rootPlots : Nat → List Root → List Plot
  | _, [] => []
  | start, root :: rest => root.plot start :: rootPlots (start + root.nesting.size) rest

/-- The places of all functions of roots that follow each other. -/
def forestPlots : Nat → List Root → List Plot
  | _, [] => []
  | start, root :: rest => root.plots start ++ forestPlots (start + root.nesting.size) rest

/-- Going through functions in order, those of `seen` having been reached, grows these roots. -/
inductive Grows (body? : RecordId → Option (Body .bound)) :
    (RecordId → Prop) → List RecordId → List Root → Prop where
  | nil {seen : RecordId → Prop} : Grows body? seen [] []
  | reached {seen : RecordId → Prop} {id : RecordId} {ids : List RecordId} {roots : List Root} :
    seen id → Grows body? seen ids roots → Grows body? seen (id :: ids) roots
  | root {seen : RecordId → Prop} {root : Root} {ids : List RecordId} {roots : List Root} :
    ¬ seen root.id → body? root.id = some root.nesting.code →
    root.nesting.Proper body? (fun x => x = root.id ∨ seen x) →
    Grows body? (fun x => x ∈ root.ids ∨ seen x) ids roots →
    Grows body? seen (root.id :: ids) (root :: roots)

variable {body? : RecordId → Option (Body .bound)} {seen : RecordId → Prop}

@[simp] lemma forestSize_cons (root : Root) (roots : List Root) :
    forestSize (root :: roots) = root.nesting.size + forestSize roots := by simp [forestSize]

@[simp] lemma forestSize_append (roots more : List Root) :
    forestSize (roots ++ more) = forestSize roots + forestSize more := by simp [forestSize]

@[simp] lemma forestIds_cons (root : Root) (roots : List Root) :
    forestIds (root :: roots) = root.ids ++ forestIds roots := by simp [forestIds]

lemma forestPlots_append (start : Nat) (roots more : List Root) :
    forestPlots start (roots ++ more) =
      forestPlots start roots ++ forestPlots (start + forestSize roots) more := by
  induction roots generalizing start with
  | nil => simp [forestPlots, forestSize]
  | cons root roots ih => simp [forestPlots, ih, Nat.add_assoc]

lemma Root.map_id_plots (root : Root) (start : Nat) :
    (root.plots start).map Plot.id = root.ids := by
  simp [plots, plot, ids, Nesting.map_id_plots]

lemma map_id_forestPlots (start : Nat) (roots : List Root) :
    (forestPlots start roots).map Plot.id = forestIds roots := by
  induction roots generalizing start with
  | nil => rfl
  | cons root roots ih => simp [forestPlots, ih, Root.map_id_plots]

namespace Grows

lemma congr {seen' : RecordId → Prop} {ids : List RecordId} {roots : List Root}
    (h : Grows body? seen ids roots) (hs : ∀ x, seen x ↔ seen' x) :
    Grows body? seen' ids roots := by
  have : seen = seen' := funext fun x => propext (hs x)
  rwa [← this]

lemma append {ids more : List RecordId} {roots roots' : List Root} (h : Grows body? seen ids roots)
    (h' : Grows body? (fun x => x ∈ forestIds roots ∨ seen x) more roots') :
    Grows body? seen (ids ++ more) (roots ++ roots') := by
  induction h with
  | nil => exact h'.congr fun x => by simp [forestIds]
  | reached hid _ ih => exact .reached hid (ih h')
  | root hid hb hproper _ ih =>
    refine .root hid hb hproper (ih (h'.congr fun x => ?_))
    rw [forestIds_cons, List.mem_append]
    tauto

lemma of_filter {keep : RecordId → Bool} {ids : List RecordId} {roots : List Root}
    (h : Grows body? seen (ids.filter keep) roots) (hk : ∀ id, keep id = false → seen id) :
    Grows body? seen ids roots := by
  induction ids generalizing seen roots with
  | nil => exact h
  | cons id ids ih =>
    cases hid : keep id with
    | false =>
      rw [List.filter_cons_of_neg (by simp [hid])] at h
      exact .reached (hk id hid) (ih h hk)
    | true =>
      rw [List.filter_cons_of_pos hid] at h
      cases h with
      | reached hs h => exact .reached hs (ih h hk)
      | root hs hb hproper h => exact .root hs hb hproper (ih h fun x hx => .inr (hk x hx))

lemma nodup {ids : List RecordId} {roots : List Root} (h : Grows body? seen ids roots) :
    (forestIds roots).Nodup ∧ ∀ x ∈ forestIds roots, ¬ seen x := by
  induction h with
  | nil => simp [forestIds]
  | reached _ _ ih => exact ih
  | root hid _ hproper _ ih =>
    obtain ⟨hn, hs⟩ := hproper.nodup
    obtain ⟨hn', hs'⟩ := ih
    simp only [not_or] at hs hs'
    rw [forestIds_cons, Root.ids]
    refine ⟨?_, ?_⟩
    · rw [List.nodup_append, List.nodup_cons]
      refine ⟨⟨fun hx => (hs _ hx).1 rfl, hn⟩, hn', ?_⟩
      rintro a ha b hb rfl
      exact (hs' a hb).1 ha
    · intro x hx
      rcases List.mem_append.mp hx with hx | hx
      · rcases List.mem_cons.mp hx with rfl | hx
        · exact hid
        · exact (hs x hx).2
      · exact (hs' x hx).2

lemma mem_of_mem {ids : List RecordId} {roots : List Root} (h : Grows body? seen ids roots)
    {id : RecordId} (hid : id ∈ ids) : id ∈ forestIds roots ∨ seen id := by
  induction h with
  | nil => simp at hid
  | reached hs _ ih =>
    rcases List.mem_cons.mp hid with rfl | hid
    · exact .inr hs
    · exact ih hid
  | root _ _ _ _ ih =>
    rw [forestIds_cons, List.mem_append]
    rcases List.mem_cons.mp hid with rfl | hid
    · exact .inl (.inl (by simp [Root.ids]))
    · have := ih hid
      tauto

lemma body?_eq {ids : List RecordId} {roots : List Root} (h : Grows body? seen ids roots)
    {start : Nat} {p : Plot} (hp : p ∈ forestPlots start roots) :
    body? p.id = some p.nesting.code := by
  induction h generalizing start with
  | nil => simp [forestPlots] at hp
  | reached _ _ ih => exact ih hp
  | root _ hb hproper _ ih =>
    rw [forestPlots, List.mem_append, Root.plots, List.mem_cons] at hp
    rcases hp with (rfl | hp) | hp
    · exact hb
    · exact hproper.body?_eq hp
    · exact ih hp

end Grows

end ScriptContainer
