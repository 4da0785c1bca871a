import ScriptContainer.Proofs.EmittingRegion
import ScriptContainer.Proofs.Tiling
import ScriptContainer.Region.Decoding

/-!
# Rows of code that a reader does not know

A reader who goes through roots and knows only some of their functions sees the others as code without
limits. All that stands between two roots that it knows makes one row, which it takes for the code of
one function.
-/

namespace ScriptContainer

namespace Nesting

lemma append_done (n : Nesting) : n.append .done = n := by
  induction n with
  | done => rfl
  | step i rest ih => rw [append, ih]
  | host i id inner rest _ ih => rw [append, ih]

lemma append_assoc (n m k : Nesting) : (n.append m).append k = n.append (m.append k) := by
  induction n with
  | done => rfl
  | step i rest ih => rw [append, append, append, ih]
  | host i id inner rest _ ih => rw [append, append, append, ih]

lemma ids_append (n more : Nesting) : (n.append more).ids = n.ids ++ more.ids := by
  induction n with
  | done => rfl
  | step i rest ih => exact ih
  | host i id inner rest _ ih => simp only [append, ids, ih, List.cons_append, List.append_assoc]

lemma allCode_append (n more : Nesting) : (n.append more).allCode = n.allCode ++ more.allCode := by
  induction n with
  | done => rfl
  | step i rest ih => simp only [append, allCode, ih, List.cons_append]
  | host i id inner rest _ ih =>
    simp only [append, allCode, ih, List.cons_append, List.append_assoc]

lemma bytes_append (write : Instruction .bound → List UInt8) (n more : Nesting) :
    (n.append more).bytes write = n.bytes write ++ more.bytes write := by
  induction n with
  | done => rfl
  | step i rest ih => simp only [append, bytes, ih, List.append_assoc]
  | host i id inner rest _ ih => simp only [append, bytes, ih, List.append_assoc]

/-- The code of roots that follow each other as the code of one function. -/
def ofRoots : List Root → Nesting
  | [] => .done
  | root :: roots => root.nesting.append (ofRoots roots)

lemma ofRoots_append (roots more : List Root) :
    ofRoots (roots ++ more) = (ofRoots roots).append (ofRoots more) := by
  induction roots with
  | nil => rfl
  | cons root roots ih => rw [List.cons_append, ofRoots, ih, ofRoots, append_assoc]

lemma size_ofRoots (roots : List Root) : (ofRoots roots).size = forestSize roots := by
  induction roots with
  | nil => rfl
  | cons root roots ih => rw [ofRoots, size_append, ih, forestSize_cons]

lemma code_ofRoots (roots : List Root) :
    (ofRoots roots).code = roots.flatMap fun root => root.nesting.code := by
  induction roots with
  | nil => rfl
  | cons root roots ih => rw [ofRoots, code_append, ih, List.flatMap_cons]

end Nesting

/-- Roots that follow each other, the first one at `start`. -/
structure Row where
  start : Nat
  roots : List Root

namespace Row

/-- The code of the row as that of one function. -/
def nesting (row : Row) : Nesting := .ofRoots row.roots

def stop (row : Row) : Nat := row.start + row.nesting.size

/-- The places of the functions in the row. -/
def plots (row : Row) : List Plot := rootPlots row.start row.roots

/-- The row with one more root at its end. -/
def add (row : Row) (root : Root) : Row := { row with roots := row.roots ++ [root] }

/-- The row taken for one function. -/
def function (row : Row) (id : RecordId) : Function :=
  { Function.new id with
    isDeclared := false
    codeStart := .ofNat row.start
    codeEnd := .ofNat row.stop
    code := row.nesting.code }

@[simp] lemma stop_nil (start : Nat) : stop ⟨start, []⟩ = start := rfl

lemma nesting_add (row : Row) (root : Root) :
    (row.add root).nesting = row.nesting.append root.nesting := by
  rw [nesting, add, Nesting.ofRoots_append, Nesting.ofRoots, Nesting.ofRoots, Nesting.append_done]
  rfl

lemma stop_add (row : Row) (root : Root) : (row.add root).stop = row.stop + root.nesting.size := by
  rw [stop, nesting_add, Nesting.size_append, ← Nat.add_assoc]
  rfl

lemma rootPlots_append (start : Nat) (roots more : List Root) :
    rootPlots start (roots ++ more) =
      rootPlots start roots ++ rootPlots (start + forestSize roots) more := by
  induction roots generalizing start with
  | nil => rfl
  | cons root roots ih =>
    rw [List.cons_append, rootPlots, ih, rootPlots, forestSize_cons, Nat.add_assoc, List.cons_append]

lemma stop_eq (row : Row) : row.stop = row.start + forestSize row.roots := by
  rw [stop, nesting, Nesting.size_ofRoots]

lemma plots_add (row : Row) (root : Root) :
    (row.add root).plots = row.plots ++ [root.plot row.stop] := by
  rw [plots, add, rootPlots_append, stop_eq]
  rfl

lemma tiles (row : Row) : Tiles row.start (row.plots.map Plot.span) row.stop := by
  rw [stop_eq]
  exact tiles_rootPlots row.start row.roots

lemma code_nesting (row : Row) : row.nesting.code = row.plots.flatMap fun p => p.nesting.code := by
  have hplots (start : Nat) (roots : List Root) :
      (rootPlots start roots).flatMap (fun p => p.nesting.code) =
        roots.flatMap fun root => root.nesting.code := by
    induction roots generalizing start with
    | nil => rfl
    | cons root roots ih => rw [rootPlots, List.flatMap_cons, ih, List.flatMap_cons]; rfl
  rw [nesting, Nesting.code_ofRoots, plots, hplots]

end Row

/-- The rows between roots that the reader knows, each ended by one of them, and the row after the last
of them. At `start` the reader has come behind the row `open`. -/
def rows (known : RecordId → Bool) : Nat → Row → List Root → List Row × Row
  | _, row, [] => ([], row)
  | start, row, root :: roots =>
    let stop := start + root.nesting.size
    if known root.id then
      let rest := rows known stop ⟨stop, []⟩ roots
      (row :: rest.1, rest.2)
    else rows known stop (row.add root) roots

/-- Functions made of rows that are not empty, with ids from the first one on; the last id is free
afterwards. -/
inductive Gaps : RecordId → List Row → List (Placement × Function) → RecordId → Prop where
  | nil {id : RecordId} : Gaps id [] [] id
  | empty {row : Row} {rest : List Row} {gaps : List (Placement × Function)} {id id' : RecordId} :
    row.nesting.size = 0 → Gaps id rest gaps id' → Gaps id (row :: rest) gaps id'
  | gap {row : Row} {rest : List Row} {placement : Placement} {gaps : List (Placement × Function)}
    {id id' : RecordId} : row.nesting.size ≠ 0 → Gaps (id + 1) rest gaps id' →
    Gaps id (row :: rest) ((placement, row.function id) :: gaps) id'

namespace Gaps

variable {id id' id'' : RecordId} {rows more : List Row} {xs ys : List (Placement × Function)}

lemma append (h : Gaps id rows xs id') (h' : Gaps id' more ys id'') :
    Gaps id (rows ++ more) (xs ++ ys) id'' := by
  induction h with
  | nil => exact h'
  | empty hsize _ ih => exact .empty hsize (ih h')
  | gap hsize _ ih => exact .gap hsize (ih h')

lemma forall₂ (h : Gaps id rows xs id') :
    List.Forall₂ (fun (gap : Placement × Function) row => gap.2 = row.function gap.2.id) xs
      (rows.filter fun row => row.nesting.size != 0) := by
  induction h with
  | nil => exact .nil
  | empty hsize _ ih =>
    rw [List.filter_cons_of_neg (by simp [hsize])]
    exact ih
  | gap hsize _ ih =>
    rw [List.filter_cons_of_pos (by simp [hsize])]
    exact .cons rfl ih

lemma ids_eq (h : Gaps id rows xs id') :
    xs.map (fun gap => gap.2.id) = (List.range xs.length).map fun n => id + .ofNat n := by
  induction h with
  | nil => rfl
  | empty _ _ ih => exact ih
  | @gap row rest placement gaps id id' _ _ ih =>
    rw [List.map_cons, ih, List.length_cons, List.range_succ_eq_map, List.map_cons, List.map_map]
    have hzero : id + .ofNat 0 = id := UInt32.add_zero id
    rw [hzero]
    refine congrArg _ (List.map_congr_left fun n _ => ?_)
    rw [Function.comp_apply, Nat.succ_eq_one_add, UInt32.ofNat_add, ← UInt32.add_assoc]
    rfl

end Gaps

section Rows

variable {known : RecordId → Bool} {start : Nat} {row : Row} {roots : List Root}

lemma plots_rows (h : row.stop = start) :
    (rows known start row roots).1.flatMap Row.plots ++ (rows known start row roots).2.plots =
      row.plots ++ (rootPlots start roots).filter fun p => !known p.id := by
  induction roots generalizing start row with
  | nil => simp [rows, rootPlots]
  | cons root roots ih =>
    rw [rows, rootPlots]
    by_cases hknown : known root.id = true
    · rw [if_pos hknown, List.filter_cons_of_neg (by simp [Root.plot, hknown]), List.flatMap_cons,
        List.append_assoc, ih (Row.stop_nil _)]
      rfl
    · rw [if_neg hknown, List.filter_cons_of_pos (by simpa [Root.plot] using hknown),
        ih (by rw [Row.stop_add, h]), Row.plots_add, h, List.append_assoc, List.singleton_append]

lemma stop_le_last_rows (h : row.stop = start) :
    row.start ≤ (rows known start row roots).2.start ∧
      ∀ p ∈ rootPlots start roots, known p.id = true → p.stop ≤ (rows known start row roots).2.start := by
  induction roots generalizing start row with
  | nil => exact ⟨le_rfl, fun p hp => absurd hp List.not_mem_nil⟩
  | cons root roots ih =>
    have hle : row.start ≤ start := by
      rw [← h, Row.stop]
      exact Nat.le_add_right _ _
    rw [rows, rootPlots, List.forall_mem_cons]
    by_cases hknown : known root.id = true
    · obtain ⟨hstart, hplots⟩ := ih (Row.stop_nil (start + root.nesting.size))
      rw [if_pos hknown]
      exact ⟨hle.trans ((Nat.le_add_right _ _).trans hstart), fun _ => hstart, hplots⟩
    · have hstop : (row.add root).stop = start + root.nesting.size := by rw [Row.stop_add, h]
      obtain ⟨hstart, hplots⟩ := ih hstop
      rw [if_neg hknown]
      exact ⟨hstart, fun hp => absurd hp hknown, hplots⟩

end Rows

end ScriptContainer
