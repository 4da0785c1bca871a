import ScriptContainer.Proofs.Tiling

/-!
# Regions that are covered

Code and tables that follow each other cover a region without gap. The code of a function may hold
the code of others; apart from that no two parts share a byte.
-/

namespace ScriptContainer

lemma Nesting.size_eq_sum (n : Nesting) (start : Nat) :
    n.size = codeSize n.code + ((n.plots start).map fun p => codeSize p.nesting.code).sum := by
  induction n generalizing start with
  | done => rfl
  | step i rest ih =>
    rw [size, code, plots, codeSize_cons, ih (start + i.size), Nat.add_assoc]
  | host i id inner rest ihi ihr =>
    have hinner := ihi (start + i.size)
    have hrest := ihr (start + i.size + inner.size)
    simp only [size, code, plots, codeSize_cons, List.map_cons, List.sum_cons, List.map_append,
      List.sum_append]
    omega

lemma Nesting.add_size_le_of_mem_instructions {n : Nesting} {start stop : Nat}
    {i : Instruction .bound} (h : (i, stop) ∈ n.code.zip (n.stops start)) : start + i.size ≤ stop := by
  induction n generalizing start with
  | done => simp [code] at h
  | step j rest ih =>
    rw [code, stops, List.zip_cons_cons, List.mem_cons] at h
    rcases h with h | h
    · obtain ⟨rfl, rfl⟩ := Prod.mk.inj h
      exact le_rfl
    · have := ih h
      omega
  | host j id inner rest _ ih =>
    rw [code, stops, List.zip_cons_cons, List.mem_cons] at h
    rcases h with h | h
    · obtain ⟨rfl, rfl⟩ := Prod.mk.inj h
      exact le_rfl
    · have := ih h
      omega

/-- An instruction of `q` that starts `p` ends where `p` begins, and `p` lies inside `q`. -/
def Plot.Hosts (q p : Plot) : Prop :=
  q.start ≤ p.start ∧ p.stop ≤ q.stop ∧
    ∃ i, (i, p.start) ∈ q.instructions ∧ i.spawned? = some p.id

namespace Root

variable {root : Root} {start : Nat}

lemma pairwise_fits_plots (root : Root) (start : Nat) : (root.plots start).Pairwise Plot.Fits := by
  rw [plots, List.pairwise_cons]
  refine ⟨fun q hq => ?_, root.nesting.pairwise_fits_plots start⟩
  have hbounds := Nesting.start_le_of_mem_plots hq
  have hstart := Nesting.start_lt_of_mem_plots hq
  exact .inr (.inr (.inl ⟨Nesting.isInline_of_mem_plots hq, hstart, hbounds.2⟩))

lemma exists_host {body? : RecordId → Option (Body .bound)} {seen : RecordId → Prop} {p : Plot}
    (hproper : root.nesting.Proper body? seen) (hp : p ∈ root.plots start)
    (hinline : p.isInline = true) : ∃ q ∈ root.plots start, q.Hosts p := by
  have hforest : forestPlots start [root] = root.plots start := List.append_nil _
  have hguest := (forest_guests_perm start [root]).mem_iff.mpr
    (List.mem_filter.mpr ⟨hforest ▸ hp, hinline⟩)
  rw [hforest, List.mem_flatMap] at hguest
  obtain ⟨q, hq, hpq⟩ := hguest
  have hinside : p ∈ q.nesting.plots q.start :=
    (q.nesting.guests_perm q.start).subset (List.mem_append_left _ hpq)
  have hbounds := Nesting.start_le_of_mem_plots hinside
  refine ⟨q, hq, hbounds.1, hbounds.2, ?_⟩
  rcases List.mem_cons.mp hq with rfl | hq
  · exact hproper.exists_instruction hpq
  · obtain ⟨seen', hproper'⟩ := hproper.of_mem_plots hq
    exact hproper'.exists_instruction hpq

end Root

/-- Code and tables that follow each other from the start of a region up to `reach`. -/
inductive Covers : List Plot → List Table → Nat → Prop where
  | nil : Covers [] [] 0
  | code {plots : List Plot} {tables : List Table} {reach : Nat} {root : Root}
    {body? : RecordId → Option (Body .bound)} {seen : RecordId → Prop} :
    Covers plots tables reach → root.nesting.Proper body? seen →
    Covers (plots ++ root.plots reach) tables (reach + root.nesting.size)
  | table {plots : List Plot} {tables : List Table} {t : Table} :
    Covers plots tables t.start.toNat →
    Covers plots (tables ++ [t]) (t.start.toNat + t.payloadSize)
  | perm {plots plots' : List Plot} {tables : List Table} {reach : Nat} :
    Covers plots tables reach → plots.Perm plots' → Covers plots' tables reach

namespace Covers

variable {plots : List Plot} {tables : List Table} {reach : Nat}

lemma stop_le (h : Covers plots tables reach) : ∀ p ∈ plots, p.stop ≤ reach := by
  induction h with
  | nil => exact fun _ hp => absurd hp List.not_mem_nil
  | code _ _ ih =>
    intro p hp
    rcases List.mem_append.mp hp with hp | hp
    · exact (ih p hp).trans (Nat.le_add_right _ _)
    · exact (Root.bounds_of_mem_plots hp).2
  | table _ ih => exact fun p hp => (ih p hp).trans (Nat.le_add_right _ _)
  | perm _ hperm ih => exact fun p hp => ih p (hperm.mem_iff.mpr hp)

lemma table_stop_le (h : Covers plots tables reach) : ∀ t ∈ tables, t.span.2 ≤ reach := by
  induction h with
  | nil => exact fun _ ht => absurd ht List.not_mem_nil
  | code _ _ ih => exact fun t ht => (ih t ht).trans (Nat.le_add_right _ _)
  | table _ ih =>
    intro t ht
    rcases List.mem_append.mp ht with ht | ht
    · exact (ih t ht).trans (Nat.le_add_right _ _)
    · obtain rfl := List.mem_singleton.mp ht
      exact le_rfl
  | perm _ _ ih => exact ih

lemma fits (h : Covers plots tables reach) : plots.Pairwise Plot.Fits := by
  induction h with
  | nil => exact .nil
  | code h _ ih =>
    rw [List.pairwise_append]
    refine ⟨ih, Root.pairwise_fits_plots _ _, fun p hp q hq => ?_⟩
    exact .inl ((h.stop_le p hp).trans (Root.bounds_of_mem_plots hq).1)
  | table _ ih => exact ih
  | perm _ hperm ih => exact (hperm.pairwise_iff fun h => Plot.Fits.symm h).mp ih

lemma hosts (h : Covers plots tables reach) :
    ∀ p ∈ plots, p.isInline = true → ∃ q ∈ plots, q.Hosts p := by
  induction h with
  | nil => exact fun _ hp => absurd hp List.not_mem_nil
  | code _ hproper ih =>
    intro p hp hinline
    rcases List.mem_append.mp hp with hp | hp
    · obtain ⟨q, hq, hhosts⟩ := ih p hp hinline
      exact ⟨q, List.mem_append_left _ hq, hhosts⟩
    · obtain ⟨q, hq, hhosts⟩ := Root.exists_host hproper hp hinline
      exact ⟨q, List.mem_append_right _ hq, hhosts⟩
  | table _ ih => exact ih
  | perm _ hperm ih =>
    intro p hp hinline
    obtain ⟨q, hq, hhosts⟩ := ih p (hperm.mem_iff.mpr hp) hinline
    exact ⟨q, hperm.mem_iff.mp hq, hhosts⟩

lemma tables_apart (h : Covers plots tables reach) :
    tables.Pairwise fun t u => t.span.2 ≤ u.span.1 := by
  induction h with
  | nil => exact .nil
  | code _ _ ih => exact ih
  | table h ih =>
    rw [List.pairwise_append]
    refine ⟨ih, List.pairwise_singleton _ _, fun t ht u hu => ?_⟩
    obtain rfl := List.mem_singleton.mp hu
    exact h.table_stop_le t ht
  | perm _ _ ih => exact ih

lemma code_apart (h : Covers plots tables reach) :
    ∀ t ∈ tables, ∀ p ∈ plots, p.stop ≤ t.span.1 ∨ t.span.2 ≤ p.start := by
  induction h with
  | nil => exact fun _ ht => absurd ht List.not_mem_nil
  | code h _ ih =>
    intro t ht p hp
    rcases List.mem_append.mp hp with hp | hp
    · exact ih t ht p hp
    · exact .inr ((h.table_stop_le t ht).trans (Root.bounds_of_mem_plots hp).1)
  | table h ih =>
    intro t ht p hp
    rcases List.mem_append.mp ht with ht | ht
    · exact ih t ht p hp
    · obtain rfl := List.mem_singleton.mp ht
      exact .inl (h.stop_le p hp)
  | perm _ hperm ih => exact fun t ht p hp => ih t ht p (hperm.mem_iff.mpr hp)

lemma total (h : Covers plots tables reach) :
    (plots.map fun p => codeSize p.nesting.code).sum + (tables.map Table.payloadSize).sum =
      reach := by
  induction h with
  | nil => rfl
  | @code _ _ reach root _ _ _ _ ih =>
    have hsize := root.nesting.size_eq_sum reach
    rw [List.map_append, List.sum_append, Root.plots, List.map_cons, List.sum_cons]
    simp only [Root.plot]
    omega
  | table _ ih =>
    rw [List.map_append, List.sum_append, List.map_singleton, List.sum_singleton]
    omega
  | perm _ hperm ih => rwa [← (hperm.map _).sum_nat]

end Covers

end ScriptContainer
