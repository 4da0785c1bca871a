import ScriptContainer.Region.Schedule
import ScriptContainer.Proofs.Plots
import ScriptContainer.Proofs.Ties

/-!
# Following a schedule

Whoever goes through a schedule passes over the functions that stand inside others and takes up the
roots. Functions without code may change places with each other in the schedule, so the roots come
in an order that need not be that of laying out.
-/

namespace ScriptContainer

namespace Plot

def scheduled (p : Plot) : Scheduled := ⟨p.start, p.stop, .function p.id⟩

/-- The order in which functions stand behind each other: the later one starts behind the start of
the earlier one, or else the earlier one is empty. -/
def Before (p q : Plot) : Prop := p.start < q.start ∨ p.start = p.stop ∧ p.stop ≤ q.start

end Plot

lemma Nesting.lt_of_mem_plots {n : Nesting} {start : Nat} {p : Plot} (h : p ∈ n.plots start) :
    start < p.start := by
  induction n generalizing start with
  | done => simp [plots] at h
  | step i rest ih =>
    have := ih h
    omega
  | host i id inner rest ihi ihr =>
    have hpos := i.size_pos
    rw [plots, List.mem_cons, List.mem_append] at h
    rcases h with rfl | h | h
    · simp only
      omega
    · have := ihi h
      omega
    · have := ihr h
      omega

lemma Nesting.pairwise_before_plots (n : Nesting) (start : Nat) :
    (n.plots start).Pairwise Plot.Before := by
  induction n generalizing start with
  | done => exact .nil
  | step i rest ih => exact ih _
  | host i id inner rest ihi ihr =>
    rw [plots, List.pairwise_cons, List.pairwise_append]
    refine ⟨fun q hq => ?_, ihi _, ihr _, fun p hp q hq => ?_⟩
    · rcases List.mem_append.mp hq with hq | hq
      · exact .inl (lt_of_mem_plots hq)
      · have hq := lt_of_mem_plots hq
        exact .inl (by simp only; omega)
    · have hp := start_le_of_mem_plots hp
      have hq := lt_of_mem_plots hq
      have hle : p.start ≤ p.stop := Nat.le_add_right _ _
      exact .inl (by omega)

lemma pairwise_before_forestPlots (start : Nat) (roots : List Root) :
    (forestPlots start roots).Pairwise Plot.Before := by
  induction roots generalizing start with
  | nil => exact .nil
  | cons root roots ih =>
    rw [forestPlots, List.pairwise_append, Root.plots, List.pairwise_cons]
    refine ⟨⟨fun q hq => .inl (Nesting.lt_of_mem_plots hq),
      root.nesting.pairwise_before_plots start⟩, ih _, fun p hp q hq => ?_⟩
    have hp := Root.bounds_of_mem_plots hp
    have hq := bounds_of_mem_forestPlots hq
    have hle : p.start ≤ p.stop := Nat.le_add_right _ _
    unfold Plot.Before
    omega

/-- Going through a schedule from an offset takes up these roots one after the other; functions
that have been seen are passed over, and `tail` is left. -/
inductive Follows (body? : RecordId → Option (Body .bound)) (tail : List Scheduled) :
    (RecordId → Prop) → Nat → List Scheduled → List Root → Prop where
  | done {seen : RecordId → Prop} {start : Nat} : Follows body? tail seen start tail []
  | skip {seen : RecordId → Prop} {start a b : Nat} {id : RecordId} {rest : List Scheduled}
    {roots : List Root} : seen id → Follows body? tail seen start rest roots →
    Follows body? tail seen start (⟨a, b, .function id⟩ :: rest) roots
  | root {seen : RecordId → Prop} {start : Nat} {root : Root} {rest : List Scheduled}
    {roots : List Root} : ¬ seen root.id → body? root.id = some root.nesting.code →
    root.nesting.Proper body? (fun x => x = root.id ∨ seen x) →
    Follows body? tail (fun x => x ∈ root.ids ∨ seen x) (start + root.nesting.size) rest roots →
    Follows body? tail seen start ((root.plot start).scheduled :: rest) (root :: roots)

namespace Follows

variable {body? : RecordId → Option (Body .bound)} {tail : List Scheduled}
  {seen : RecordId → Prop} {start : Nat} {rest : List Scheduled} {roots : List Root}

lemma skips {plots : List Plot} (hp : ∀ p ∈ plots, seen p.id)
    (h : Follows body? tail seen start rest roots) :
    Follows body? tail seen start (plots.map Plot.scheduled ++ rest) roots := by
  induction plots with
  | nil => exact h
  | cons p plots ih => exact .skip (hp p (by simp)) (ih fun q hq => hp q (by simp [hq]))

lemma of_grows {ids : List RecordId} (h : Grows body? seen ids roots) (start : Nat) :
    Follows body? tail seen start ((forestPlots start roots).map Plot.scheduled ++ tail) roots := by
  induction h generalizing start with
  | nil => exact .done
  | reached _ _ ih => exact ih start
  | @root seen root ids roots hid hb hproper _ ih =>
    rw [forestPlots, Root.plots, List.cons_append, List.map_cons, List.map_append,
      List.cons_append, List.append_assoc]
    refine .root hid hb hproper (skips (fun p hp => .inl ?_) (ih _))
    have : p.id ∈ root.nesting.ids := by
      rw [← root.nesting.map_id_plots start]
      exact List.mem_map_of_mem hp
    simp [Root.ids, this]

lemma congr {seen' : RecordId → Prop} (h : Follows body? tail seen start rest roots)
    (hs : ∀ x, seen x ↔ seen' x) : Follows body? tail seen' start rest roots := by
  have : seen = seen' := funext fun x => propext (hs x)
  rwa [← this]

end Follows

/-- Two parts without bytes at the same place. -/
def Scheduled.Tie (a b : Scheduled) : Prop :=
  a.start = a.stop ∧ b.start = b.stop ∧ a.start = b.start ∧ a.part ≠ b.part

lemma Root.eq_done_of_empty {root : Root} {start : Nat}
    (h : (root.plot start).scheduled.start = (root.plot start).scheduled.stop) :
    root.nesting = .done ∧ root.ids = [root.id] ∧ root.nesting.size = 0 := by
  have hdone : root.nesting = .done := by
    refine Nesting.eq_done_of_size ?_
    simp only [Plot.scheduled, Plot.stop, Root.plot] at h
    omega
  exact ⟨hdone, by rw [Root.ids, hdone, Nesting.ids], by rw [hdone, Nesting.size]⟩

namespace Follows

variable {body? : RecordId → Option (Body .bound)} {tail : List Scheduled}
  {seen : RecordId → Prop} {start : Nat} {rest : List Scheduled} {roots : List Root}

/-- Neighbours without bytes may change places. -/
lemma swap (htail : ∀ e ∈ tail, e.start < e.stop) {a b : Scheduled}
    (h : Follows body? tail seen start (a :: b :: rest) roots) (ht : a.Tie b) :
    ∃ roots', Follows body? tail seen start (b :: a :: rest) roots' ∧
      (forestPlots start roots').Perm (forestPlots start roots) := by
  obtain ⟨ha, hb, hab, hne⟩ := ht
  cases h with
  | done => exact absurd (htail a (by simp)) (by omega)
  | @skip _ _ _ _ id _ _ hid h =>
    cases h with
    | done => exact absurd (htail b (by simp)) (by omega)
    | skip hid' h => exact ⟨roots, .skip hid' (.skip hid h), .refl _⟩
    | @root _ _ root _ _ hid' hbody hproper h =>
      exact ⟨_, .root hid' hbody hproper (.skip (.inr hid) h), .refl _⟩
  | @root _ _ root _ roots hid hbody hproper h =>
    obtain ⟨hdone, hids, hsize⟩ := Root.eq_done_of_empty ha
    rw [hsize, Nat.add_zero] at h
    cases h with
    | done => exact absurd (htail b (by simp)) (by omega)
    | @skip _ _ c d id _ _ hid' h =>
      -- The second part has been reached before the first, as nothing stands inside an empty root.
      have hid' : seen id := by
        refine hid'.resolve_left fun hmem => hne ?_
        rw [hids, List.mem_singleton] at hmem
        rw [hmem]
        rfl
      exact ⟨_, .skip hid' (.root hid hbody hproper (by rwa [hsize, Nat.add_zero])), .refl _⟩
    | @root _ _ other _ roots hid' hbody' hproper' h =>
      obtain ⟨hdone', hids', hsize'⟩ := Root.eq_done_of_empty hb
      rw [not_or] at hid'
      have hroot : ¬ (root.id ∈ other.ids ∨ seen root.id) := by
        rw [hids', List.mem_singleton, not_or]
        refine ⟨fun he => hne ?_, hid⟩
        simp only [Plot.scheduled, Root.plot, he]
      have hlast : Follows body? tail (fun x => x ∈ root.ids ∨ x ∈ other.ids ∨ seen x)
          (start + root.nesting.size) rest roots := by
        rw [hsize', Nat.add_zero] at h
        rw [hsize, Nat.add_zero]
        exact h.congr fun x => by tauto
      have hinner : Follows body? tail (fun x => x ∈ other.ids ∨ seen x)
          (start + other.nesting.size) ((root.plot start).scheduled :: rest) (root :: roots) := by
        rw [hsize', Nat.add_zero]
        exact .root hroot hbody (by rw [hdone]; trivial) hlast
      refine ⟨_, .root hid'.2 hbody' (by rw [hdone']; trivial) hinner, ?_⟩
      simp only [forestPlots, hsize, hsize', Nat.add_zero]
      exact List.perm_append_comm_assoc _ _ _

lemma of_ties (htail : ∀ e ∈ tail, e.start < e.stop) {l l' : List Scheduled}
    (h : Follows body? tail seen start l roots) (hp : TiePerm Scheduled.Tie l l') :
    ∃ roots', Follows body? tail seen start l' roots' ∧
      (forestPlots start roots').Perm (forestPlots start roots) := by
  induction hp generalizing seen start roots with
  | nil => exact ⟨roots, h, .refl _⟩
  | swap l ht => exact h.swap htail ht
  | trans _ _ ih₁ ih₂ =>
    obtain ⟨roots₁, h₁, hp₁⟩ := ih₁ h
    obtain ⟨roots₂, h₂, hp₂⟩ := ih₂ h₁
    exact ⟨roots₂, h₂, hp₂.trans hp₁⟩
  | cons a hp ih =>
    cases h with
    | done =>
      have hsame := hp.eq_of_forall fun e he b ht => by
        have := htail e (by simp [he])
        exact absurd ht.1 (by omega)
      subst hsame
      exact ⟨[], .done, .refl _⟩
    | skip hid h =>
      obtain ⟨roots', h', hp'⟩ := ih h
      exact ⟨roots', .skip hid h', hp'⟩
    | root hid hbody hproper h =>
      obtain ⟨roots', h', hp'⟩ := ih h
      exact ⟨_, .root hid hbody hproper h', hp'.append_left _⟩

end Follows

end ScriptContainer
