import ScriptContainer.Proofs.Forests

/-!
# The geometry of plots

The plots of a forest lie inside each other or apart. Every function that stands inside others is a
guest of exactly one, and starts where the first instruction that starts it ends.
-/

namespace ScriptContainer

namespace Plot

/-- The functions that stand inside, but not inside each other. -/
def guests (p : Plot) : List Plot := p.nesting.guests p.start

/-- The instructions of the function itself, each with its end. -/
def instructions (p : Plot) : List (Instruction .bound × Nat) :=
  p.nesting.code.zip (p.nesting.stops p.start)

/-- The plots lie apart, or one of them inside the other. -/
def Laminar (p q : Plot) : Prop :=
  p.stop ≤ q.start ∨ q.stop ≤ p.start ∨ (p.start ≤ q.start ∧ q.stop ≤ p.stop) ∨
    (q.start ≤ p.start ∧ p.stop ≤ q.stop)

/-- The plots lie apart, or one of them lies inside the other, is inline and starts later. -/
def Fits (p q : Plot) : Prop :=
  p.stop ≤ q.start ∨ q.stop ≤ p.start ∨
    (q.isInline = true ∧ p.start < q.start ∧ q.stop ≤ p.stop) ∨
    (p.isInline = true ∧ q.start < p.start ∧ p.stop ≤ q.stop)

lemma Fits.laminar {p q : Plot} (h : p.Fits q) : p.Laminar q := by
  rcases h with h | h | ⟨-, hlt, hle⟩ | ⟨-, hlt, hle⟩
  · exact .inl h
  · exact .inr (.inl h)
  · exact .inr (.inr (.inl ⟨hlt.le, hle⟩))
  · exact .inr (.inr (.inr ⟨hlt.le, hle⟩))

lemma Fits.symm {p q : Plot} (h : p.Fits q) : q.Fits p := by
  rcases h with h | h | h | h
  · exact .inr (.inl h)
  · exact .inl h
  · exact .inr (.inr (.inr h))
  · exact .inr (.inr (.inl h))

end Plot

namespace Nesting

variable {body? : RecordId → Option (Body .bound)} {seen : RecordId → Prop}

lemma start_le_of_mem_plots {n : Nesting} {start : Nat} {p : Plot} (h : p ∈ n.plots start) :
    start ≤ p.start ∧ p.stop ≤ start + n.size := by
  induction n generalizing start with
  | done => simp [plots] at h
  | step i rest ih =>
    have := ih h
    simp only [size]
    omega
  | host i id inner rest ihi ihr =>
    rw [plots, List.mem_cons, List.mem_append] at h
    simp only [size]
    rcases h with rfl | h | h
    · simp only [Plot.stop]
      omega
    · have := ihi h
      omega
    · have := ihr h
      omega

lemma isInline_of_mem_plots {n : Nesting} {start : Nat} {p : Plot} (h : p ∈ n.plots start) :
    p.isInline = true := by
  induction n generalizing start with
  | done => simp [plots] at h
  | step i rest ih => exact ih h
  | host i id inner rest ihi ihr =>
    rw [plots, List.mem_cons, List.mem_append] at h
    rcases h with rfl | h | h
    · rfl
    · exact ihi h
    · exact ihr h

lemma start_lt_of_mem_plots {n : Nesting} {start : Nat} {p : Plot} (h : p ∈ n.plots start) :
    start < p.start := by
  cases n with
  | done => simp [plots] at h
  | step i rest =>
    have := i.size_pos
    have := start_le_of_mem_plots (n := rest) h
    omega
  | host i id inner rest =>
    have := i.size_pos
    rw [plots, List.mem_cons, List.mem_append] at h
    rcases h with rfl | h | h
    · exact Nat.lt_add_of_pos_right this
    · have := start_le_of_mem_plots h
      omega
    · have := start_le_of_mem_plots h
      omega

lemma pairwise_fits_plots (n : Nesting) (start : Nat) : (n.plots start).Pairwise Plot.Fits := by
  induction n generalizing start with
  | done => exact .nil
  | step i rest ih => exact ih _
  | host i id inner rest ihi ihr =>
    rw [plots, List.pairwise_cons, List.pairwise_append]
    refine ⟨fun q hq => ?_, ihi _, ihr _, fun p hp q hq => ?_⟩
    · rcases List.mem_append.mp hq with hq | hq
      · have hbounds := start_le_of_mem_plots hq
        have hstart := start_lt_of_mem_plots hq
        exact .inr (.inr (.inl ⟨isInline_of_mem_plots hq, hstart, hbounds.2⟩))
      · have := start_le_of_mem_plots hq
        exact .inl this.1
    · have hp := start_le_of_mem_plots hp
      have hq := start_le_of_mem_plots hq
      exact .inl (hp.2.trans hq.1)

lemma pairwise_laminar_plots (n : Nesting) (start : Nat) :
    (n.plots start).Pairwise Plot.Laminar :=
  (n.pairwise_fits_plots start).imp Plot.Fits.laminar

/-- Each function that stands inside is a guest of exactly one. -/
lemma guests_perm (n : Nesting) (start : Nat) :
    (n.guests start ++ (n.plots start).flatMap Plot.guests).Perm (n.plots start) := by
  induction n generalizing start with
  | done => exact .nil
  | step i rest ih => exact ih _
  | host i id inner rest ihi ihr =>
    simp only [guests, plots, List.flatMap_cons, List.flatMap_append, List.cons_append]
    refine .cons _ ?_
    have hswap (a b c d : List Plot) : (a ++ (b ++ (c ++ d))).Perm ((b ++ c) ++ (a ++ d)) := by
      rw [List.append_assoc]
      exact (List.perm_append_comm_assoc a b _).trans
        ((List.perm_append_comm_assoc a c d).append_left b)
    exact (hswap _ _ _ _).trans ((ihi _).append (ihr _))

/-- The instructions of a nesting, and those of the functions that stand inside. -/
def instructionsFrom (start : Nat) (n : Nesting) : List (Instruction .bound × Nat) :=
  n.code.zip (n.stops start) ++ (n.plots start).flatMap Plot.instructions

lemma start_lt_of_mem_instructions {n : Nesting} {start : Nat} {i : Instruction .bound} {stop : Nat}
    (h : (i, stop) ∈ n.code.zip (n.stops start)) : start < stop ∧ stop ≤ start + n.size := by
  induction n generalizing start with
  | done => simp [code] at h
  | step j rest ih =>
    have hpos : 0 < j.size := j.size_pos
    rw [code, stops, List.zip_cons_cons, List.mem_cons] at h
    simp only [size]
    rcases h with h | h
    · obtain ⟨rfl, rfl⟩ := Prod.mk.inj h
      omega
    · have := ih h
      omega
  | host j id inner rest _ ih =>
    have hpos : 0 < j.size := j.size_pos
    rw [code, stops, List.zip_cons_cons, List.mem_cons] at h
    simp only [size]
    rcases h with h | h
    · obtain ⟨rfl, rfl⟩ := Prod.mk.inj h
      omega
    · have := ih h
      omega

lemma Proper.exists_instruction {n : Nesting} (h : n.Proper body? seen) {start : Nat} {q : Plot}
    (hq : q ∈ n.guests start) :
    ∃ i, (i, q.start) ∈ n.code.zip (n.stops start) ∧ i.spawned? = some q.id := by
  induction n generalizing seen start with
  | done => simp [guests] at hq
  | step j rest ih =>
    obtain ⟨i, hi, hs⟩ := ih h.2 hq
    exact ⟨i, List.mem_cons_of_mem _ hi, hs⟩
  | host j id inner rest _ ih =>
    obtain ⟨hspawn, -, -, -, hr⟩ := h
    rw [guests, List.mem_cons] at hq
    rcases hq with rfl | hq
    · exact ⟨j, List.mem_cons_self, hspawn⟩
    · obtain ⟨i, hi, hs⟩ := ih hr hq
      exact ⟨i, List.mem_cons_of_mem _ hi, hs⟩

lemma instructionsFrom_step (start : Nat) (i : Instruction .bound) (rest : Nesting) :
    (step i rest).instructionsFrom start =
      (i, start + i.size) :: rest.instructionsFrom (start + i.size) := rfl

lemma instructionsFrom_host (start : Nat) (i : Instruction .bound) (id : RecordId)
    (inner rest : Nesting) :
    ((host i id inner rest).instructionsFrom start).Perm
      ((i, start + i.size) :: (inner.instructionsFrom (start + i.size) ++
        rest.instructionsFrom (start + i.size + inner.size))) := by
  simp only [instructionsFrom, code, stops, plots, List.zip_cons_cons, List.flatMap_cons,
    List.flatMap_append, List.cons_append, List.append_assoc]
  refine .cons _ ?_
  exact (List.perm_append_comm_assoc _ _ _).trans
    ((List.perm_append_comm_assoc _ _ _).append_left _)

lemma bounds_of_mem_instructionsFrom {n : Nesting} {start : Nat} {i : Instruction .bound}
    {stop : Nat} (h : (i, stop) ∈ n.instructionsFrom start) :
    start < stop ∧ stop ≤ start + n.size := by
  rcases List.mem_append.mp h with h | h
  · exact start_lt_of_mem_instructions h
  · obtain ⟨p, hp, h⟩ := List.mem_flatMap.mp h
    have hplot := start_le_of_mem_plots hp
    have hstop := start_lt_of_mem_instructions h
    unfold Plot.stop at hplot
    omega

lemma nodup_stops (n : Nesting) (start : Nat) :
    ((n.instructionsFrom start).map Prod.snd).Nodup := by
  induction n generalizing start with
  | done => exact .nil
  | step i rest ih =>
    rw [instructionsFrom_step, List.map_cons, List.nodup_cons]
    refine ⟨fun h => ?_, ih _⟩
    obtain ⟨⟨j, stop⟩, hj, rfl⟩ := List.mem_map.mp h
    exact (bounds_of_mem_instructionsFrom hj).1.false
  | host i id inner rest ihi ihr =>
    rw [((instructionsFrom_host start i id inner rest).map Prod.snd).nodup_iff, List.map_cons,
      List.map_append, List.nodup_cons, List.nodup_append, List.mem_append, not_or]
    refine ⟨⟨fun h => ?_, fun h => ?_⟩, ihi _, ihr _, ?_⟩
    · obtain ⟨⟨j, stop⟩, hj, rfl⟩ := List.mem_map.mp h
      exact (bounds_of_mem_instructionsFrom hj).1.false
    · obtain ⟨⟨j, stop⟩, hj, hs⟩ := List.mem_map.mp h
      have := (bounds_of_mem_instructionsFrom hj).1
      simp only at hs
      omega
    · intro a ha b hb hab
      obtain ⟨⟨j, stop⟩, hj, rfl⟩ := List.mem_map.mp ha
      obtain ⟨⟨k, stop'⟩, hk, rfl⟩ := List.mem_map.mp hb
      have := (bounds_of_mem_instructionsFrom hj).2
      have := (bounds_of_mem_instructionsFrom hk).1
      simp only at hab
      omega

/-- A function that an instruction starts has been reached before, or stands before the end of
the instruction. -/
lemma Proper.reached {n : Nesting} (h : n.Proper body? seen) {start stop : Nat}
    {i : Instruction .bound} {id : RecordId} (hi : (i, stop) ∈ n.instructionsFrom start)
    (hs : i.spawned? = some id) : seen id ∨ ∃ q ∈ n.plots start, q.id = id ∧ q.start ≤ stop := by
  induction n generalizing seen start with
  | done => simp [instructionsFrom, code, plots] at hi
  | step j rest ih =>
    rw [instructionsFrom_step, List.mem_cons] at hi
    rcases hi with hi | hi
    · obtain ⟨rfl, rfl⟩ := Prod.mk.inj hi
      exact .inl (h.1 id hs)
    · exact ih h.2 hi
  | host j callee inner rest ihi ihr =>
    obtain ⟨hspawn, -, -, hinner, hrest⟩ := h
    rw [(instructionsFrom_host start j callee inner rest).mem_iff, List.mem_cons,
      List.mem_append] at hi
    have hcallee (hle : start + j.size ≤ stop) (hid : id = callee) :
        ∃ q ∈ (host j callee inner rest).plots start, q.id = id ∧ q.start ≤ stop :=
      ⟨_, List.mem_cons_self, hid.symm, hle⟩
    rcases hi with hi | hi | hi
    · obtain ⟨rfl, rfl⟩ := Prod.mk.inj hi
      rw [hspawn] at hs
      exact .inr (hcallee le_rfl (Option.some.inj hs).symm)
    · have hbounds := bounds_of_mem_instructionsFrom hi
      rcases ihi hinner hi with (hid | hid) | ⟨q, hq, hid, hle⟩
      · exact .inr (hcallee hbounds.1.le hid)
      · exact .inl hid
      · exact .inr ⟨q, by simp [plots, hq], hid, hle⟩
    · have hbounds := bounds_of_mem_instructionsFrom hi
      rcases ihr hrest hi with (hid | hid) | ⟨q, hq, hid, hle⟩
      · rcases List.mem_cons.mp hid with hid | hid
        · exact .inr (hcallee (by omega) hid)
        · rw [← map_id_plots inner (start + j.size)] at hid
          obtain ⟨q, hq, hid⟩ := List.mem_map.mp hid
          have := start_le_of_mem_plots hq
          unfold Plot.stop at this
          exact .inr ⟨q, by simp [plots, hq], hid, by omega⟩
      · exact .inl hid
      · exact .inr ⟨q, by simp [plots, hq], hid, hle⟩

lemma Proper.of_mem_plots {n : Nesting} (h : n.Proper body? seen) {start : Nat} {p : Plot}
    (hp : p ∈ n.plots start) : ∃ seen', p.nesting.Proper body? seen' := by
  induction n generalizing seen start with
  | done => simp [plots] at hp
  | step i rest ih => exact ih h.2 hp
  | host i id inner rest ihi ihr =>
    obtain ⟨-, -, -, hinner, hrest⟩ := h
    rw [plots, List.mem_cons, List.mem_append] at hp
    rcases hp with rfl | hp | hp
    · exact ⟨_, hinner⟩
    · exact ihi hinner hp
    · exact ihr hrest hp

end Nesting

section Forest

variable {body? : RecordId → Option (Body .bound)} {seen : RecordId → Prop} {ids : List RecordId}
  {roots : List Root} {start : Nat}

lemma Root.bounds_of_mem_plots {root : Root} {p : Plot} (h : p ∈ root.plots start) :
    start ≤ p.start ∧ p.stop ≤ start + root.nesting.size := by
  rcases List.mem_cons.mp h with rfl | h
  · exact ⟨le_rfl, le_rfl⟩
  · exact Nesting.start_le_of_mem_plots h

lemma bounds_of_mem_forestPlots {p : Plot} (h : p ∈ forestPlots start roots) :
    start ≤ p.start ∧ p.stop ≤ start + forestSize roots := by
  induction roots generalizing start with
  | nil => simp [forestPlots] at h
  | cons root roots ih =>
    rw [forestSize_cons]
    rcases List.mem_append.mp h with h | h
    · have := Root.bounds_of_mem_plots h
      omega
    · have := ih h
      omega

lemma pairwise_laminar_forestPlots (start : Nat) (roots : List Root) :
    (forestPlots start roots).Pairwise Plot.Laminar := by
  induction roots generalizing start with
  | nil => exact .nil
  | cons root roots ih =>
    rw [forestPlots, List.pairwise_append, Root.plots, List.pairwise_cons]
    refine ⟨⟨fun q hq => ?_, root.nesting.pairwise_laminar_plots start⟩, ih _, fun p hp q hq => ?_⟩
    · exact .inr (.inr (.inl (Nesting.start_le_of_mem_plots hq)))
    · have hp := Root.bounds_of_mem_plots hp
      have hq := bounds_of_mem_forestPlots hq
      exact .inl (hp.2.trans hq.1)

lemma filter_not_isInline_forestPlots (start : Nat) (roots : List Root) :
    (forestPlots start roots).filter (fun p => !p.isInline) = rootPlots start roots := by
  induction roots generalizing start with
  | nil => rfl
  | cons root roots ih =>
    have hnone : (root.nesting.plots start).filter (fun p => !p.isInline) = [] := by
      rw [List.filter_eq_nil_iff]
      intro p hp
      simp [Nesting.isInline_of_mem_plots hp]
    rw [forestPlots, Root.plots, List.cons_append, List.filter_cons_of_pos (by simp [Root.plot]),
      List.filter_append, hnone, ih, List.nil_append, rootPlots]

lemma mem_forestPlots_of_mem_rootPlots {start : Nat} {roots : List Root} {p : Plot}
    (hp : p ∈ rootPlots start roots) : p ∈ forestPlots start roots := by
  rw [← filter_not_isInline_forestPlots] at hp
  exact List.mem_of_mem_filter hp

lemma sum_size_rootPlots (start : Nat) (roots : List Root) :
    ((rootPlots start roots).map fun p => p.nesting.size).sum = forestSize roots := by
  induction roots generalizing start with
  | nil => rfl
  | cons root roots ih =>
    rw [rootPlots, List.map_cons, List.sum_cons, ih, forestSize_cons]
    rfl

lemma forestSize_eq_of_perm {start : Nat} {roots roots' : List Root}
    (h : (forestPlots start roots').Perm (forestPlots start roots)) :
    forestSize roots' = forestSize roots := by
  have hroots := h.filter fun p => !p.isInline
  rw [filter_not_isInline_forestPlots, filter_not_isInline_forestPlots] at hroots
  rw [← sum_size_rootPlots start roots', ← sum_size_rootPlots start roots]
  exact (hroots.map _).sum_nat

lemma forest_guests_perm (start : Nat) (roots : List Root) :
    ((forestPlots start roots).flatMap Plot.guests).Perm
      ((forestPlots start roots).filter Plot.isInline) := by
  induction roots generalizing start with
  | nil => exact .nil
  | cons root roots ih =>
    have hall : (root.nesting.plots start).filter Plot.isInline = root.nesting.plots start :=
      List.filter_eq_self.mpr fun p hp => Nesting.isInline_of_mem_plots hp
    rw [forestPlots, Root.plots, List.cons_append, List.filter_cons_of_neg (by simp [Root.plot]),
      List.filter_append, hall, List.flatMap_cons, List.flatMap_append, ← List.append_assoc]
    exact (root.nesting.guests_perm start).append (ih _)

lemma bounds_of_mem_instructions {p : Plot} (h : p ∈ forestPlots start roots)
    {i : Instruction .bound} {stop : Nat} (hi : (i, stop) ∈ p.instructions) :
    start < stop ∧ stop ≤ start + forestSize roots := by
  have hp := bounds_of_mem_forestPlots h
  have := Nesting.start_lt_of_mem_instructions hi
  unfold Plot.stop at hp
  omega

lemma nodup_forest_stops (start : Nat) (roots : List Root) :
    (((forestPlots start roots).flatMap Plot.instructions).map Prod.snd).Nodup := by
  induction roots generalizing start with
  | nil => exact .nil
  | cons root roots ih =>
    rw [forestPlots, List.flatMap_append, List.map_append, List.nodup_append]
    refine ⟨root.nesting.nodup_stops start, ih _, ?_⟩
    intro a ha b hb hab
    obtain ⟨⟨i, stop⟩, hi, rfl⟩ := List.mem_map.mp ha
    obtain ⟨⟨j, stop'⟩, hj, rfl⟩ := List.mem_map.mp hb
    obtain ⟨q, hq, hj⟩ := List.mem_flatMap.mp hj
    have hi : (i, stop) ∈ root.nesting.instructionsFrom start := hi
    have := (Nesting.bounds_of_mem_instructionsFrom hi).2
    have := (bounds_of_mem_instructions hq hj).1
    simp only at hab
    omega

namespace Grows

lemma exists_instruction (h : Grows body? seen ids roots) {p q : Plot}
    (hp : p ∈ forestPlots start roots) (hq : q ∈ p.guests) :
    ∃ i, (i, q.start) ∈ p.instructions ∧ i.spawned? = some q.id := by
  induction h generalizing start with
  | nil => simp [forestPlots] at hp
  | reached _ _ ih => exact ih hp
  | root _ _ hproper _ ih =>
    rw [forestPlots, List.mem_append, Root.plots, List.mem_cons] at hp
    rcases hp with (rfl | hp) | hp
    · exact hproper.exists_instruction hq
    · obtain ⟨seen', hproper'⟩ := hproper.of_mem_plots hp
      exact hproper'.exists_instruction hq
    · exact ih hp

lemma reached_before (h : Grows body? seen ids roots) {p : Plot}
    (hp : p ∈ forestPlots start roots) {i : Instruction .bound} {stop : Nat}
    (hi : (i, stop) ∈ p.instructions) {id : RecordId} (hs : i.spawned? = some id) :
    seen id ∨ ∃ q ∈ forestPlots start roots, q.id = id ∧ q.start ≤ stop := by
  induction h generalizing start with
  | nil => simp [forestPlots] at hp
  | reached _ _ ih => exact ih hp
  | @root seen root ids roots _ _ hproper _ ih =>
    have hbounds := bounds_of_mem_instructions hp hi
    rw [forestPlots, List.mem_append] at hp
    rcases hp with hp | hp
    · have hi : (i, stop) ∈ root.nesting.instructionsFrom start :=
        List.mem_flatMap.mpr ⟨p, hp, hi⟩
      rcases hproper.reached hi hs with (hid | hid) | ⟨q, hq, hid, hle⟩
      · exact .inr ⟨root.plot start, by simp [forestPlots, Root.plots], hid.symm, hbounds.1.le⟩
      · exact .inl hid
      · exact .inr ⟨q, by simp [forestPlots, Root.plots, hq], hid, hle⟩
    · rcases ih hp with (hid | hid) | ⟨q, hq, hid, hle⟩
      · have hbounds' := bounds_of_mem_instructions hp hi
        rw [← root.map_id_plots start] at hid
        obtain ⟨q, hq, hid⟩ := List.mem_map.mp hid
        have := Root.bounds_of_mem_plots hq
        unfold Plot.stop at this
        exact .inr ⟨q, by simp [forestPlots, hq], hid, by omega⟩
      · exact .inl hid
      · exact .inr ⟨q, by simp [forestPlots, hq], hid, hle⟩

end Grows

end Forest

end ScriptContainer
