import Mathlib.Data.List.Pairwise
import Mathlib.Data.List.Sort
import ScriptContainer.Proofs.Following
import ScriptContainer.Proofs.Tiling

/-!
# Scripts in place

Once a script is laid out, its schedule follows the roots of its forest and then its tables. This
is what writing and reading the code region rest on. It does not depend on jump targets and label
addresses, so it outlasts their being set.
-/

namespace ScriptContainer

/-- Sorting that keeps equal elements in order puts each element before the first one that it may stand
before. -/
lemma mergeSort_eq_insertionSort {α : Type} {le : α → α → Bool}
    (trans : ∀ a b c, le a b → le b c → le a c) (total : ∀ a b, le a b || le b a) (l : List α) :
    l.mergeSort le = l.insertionSort fun a b => le a b = true := by
  induction l with
  | nil => simp
  | cons a l ih =>
    obtain ⟨before, behind, hsort, hrest, hbefore⟩ := List.mergeSort_cons trans total a l
    have hpos : ∀ b ∈ before, decide ¬ le a b = true := fun b hb => by simpa using hbefore b hb
    have hbehind : ∀ b ∈ behind, le a b = true := by
      have hsorted := List.pairwise_mergeSort trans total (a :: l)
      rw [hsort] at hsorted
      exact (List.pairwise_cons.mp (List.pairwise_append.mp hsorted).2.1).1
    rw [hsort, List.insertionSort_cons, ← ih, hrest, List.orderedInsert_eq_take_drop,
      List.takeWhile_append_of_pos hpos, List.dropWhile_append_of_pos hpos]
    cases behind with
    | nil => simp
    | cons b behind => simp [hbehind b List.mem_cons_self]

namespace Scheduled

/-- The order in which parts stand behind each other. -/
def Before (a b : Scheduled) : Prop := a.start < b.start ∨ a.start = a.stop ∧ a.stop ≤ b.start

lemma Before.le {a b : Scheduled} (h : a.Before b) (hb : b.start ≤ b.stop) : a.le b = true := by
  unfold Before at h
  simp only [Scheduled.le, Bool.or_eq_true, Bool.and_eq_true, decide_eq_true_eq, beq_iff_eq]
  omega

lemma le_iff {a b : Scheduled} :
    a.le b = true ↔ a.start < b.start ∨ a.start = b.start ∧ a.stop ≤ b.stop := by
  simp [le]

lemma le_trans (a b c : Scheduled) (hab : a.le b = true) (hbc : b.le c = true) : a.le c = true := by
  rw [le_iff] at *
  omega

lemma le_total (a b : Scheduled) : (a.le b || b.le a) = true := by
  rw [Bool.or_eq_true, le_iff, le_iff]
  omega

lemma pairwise_schedule (s : Script) : s.schedule.Pairwise fun a b => a.le b = true :=
  List.pairwise_mergeSort le_trans le_total _

end Scheduled

/-- The schedule, with its parts put in order one after the other. An evaluation gets through this, but
not through sorting by halves. -/
def Script.insertedSchedule (s : Script) : List Scheduled :=
  (s.functions.records.map Scheduled.ofFunction ++ s.allTables.map Scheduled.ofTable).insertionSort
    fun a b => a.le b = true

lemma Script.schedule_eq_insertedSchedule (s : Script) : s.schedule = s.insertedSchedule :=
  mergeSort_eq_insertionSort Scheduled.le_trans Scheduled.le_total _

/-- A script in place, its roots being `roots` in the order of the schedule and its code region
ending at `stop`. -/
structure Script.Stands (s : Script) (roots : List Root) (stop : Nat) : Prop where
  follows : Follows s.body? (s.allTables.map Scheduled.ofTable) (fun _ => False) 0 s.schedule roots
  holds : ∀ p ∈ forestPlots 0 roots, s.Holds p
  once : (forestIds roots).Perm s.functions.ids
  tables : Tiles (forestSize roots) (s.allTables.map fun entry => entry.2.span) stop
  values : ∀ entry ∈ s.allTables, entry.2.length.toNat = entry.2.values.size
  fits : stop < UInt32.size

namespace Script

variable {s : Script} {plots : List Plot} {codeStop stop : Nat}

lemma mem_schedule_iff {scheduled : Scheduled} : scheduled ∈ s.schedule ↔
    (∃ f ∈ s.functions.records, .ofFunction f = scheduled) ∨
      ∃ entry ∈ s.allTables, .ofTable entry = scheduled := by
  rw [schedule, List.mem_mergeSort, List.mem_append, List.mem_map, List.mem_map]

lemma Holds.ofFunction {p : Plot} (h : s.Holds p) :
    (s.functions.get? p.id).map Scheduled.ofFunction = some p.scheduled := by
  obtain ⟨f, hf, hstart, hstop, -, -⟩ := h
  have hid : f.id = p.id := Registry.id_of_get? hf
  rw [hf, Option.map_some, Scheduled.ofFunction, hstart, hstop, hid]
  rfl

lemma scheduled_perm (hp : ∀ p ∈ plots, s.Holds p)
    (honce : (plots.map Plot.id).Perm s.functions.ids) :
    (s.functions.records.map Scheduled.ofFunction).Perm (plots.map Plot.scheduled) := by
  let place (id : RecordId) : Option Scheduled := (s.functions.get? id).map Scheduled.ofFunction
  have hrecords : (s.functions.records.map Scheduled.ofFunction).map some =
      s.functions.ids.map place := by
    rw [Registry.ids, List.map_map, List.map_map]
    refine List.map_congr_left fun f hf => ?_
    simp only [Function.comp_apply, place]
    rw [s.functions.get?_of_mem hf]
    rfl
  have hplots : (plots.map Plot.scheduled).map some = (plots.map Plot.id).map place := by
    rw [List.map_map, List.map_map]
    exact List.map_congr_left fun p h => (hp p h).ofFunction.symm
  have hperm := honce.symm.map place
  rw [← hrecords, ← hplots] at hperm
  have hsome := hperm.filterMap id
  simpa using hsome

lemma before_ofTable {tables : List (TableRef × Table)} {start : Nat}
    (h : Tiles start (tables.map fun entry => entry.2.span) stop) :
    (tables.map Scheduled.ofTable).Pairwise Scheduled.Before := by
  rw [List.pairwise_map]
  refine (List.pairwise_map.mp h.pairwise).imp fun {a b} hab => .inl ?_
  have hpos : 0 < a.2.payloadSize := by
    unfold Table.payloadSize
    omega
  simp only [Table.span] at hab
  simp only [Scheduled.ofTable]
  omega

lemma Stands.exists_plot {roots : List Root} (h : s.Stands roots stop) {f : Function}
    (hf : f ∈ s.functions.records) :
    ∃ p ∈ forestPlots 0 roots, p.id = f.id ∧ f.codeStart.toNat = p.start ∧
      f.codeEnd.toNat = p.stop ∧ f.code = p.nesting.code := by
  have hid : f.id ∈ forestIds roots := h.once.mem_iff.mpr (List.mem_map_of_mem hf)
  rw [← map_id_forestPlots 0] at hid
  obtain ⟨p, hp, hpid⟩ := List.mem_map.mp hid
  obtain ⟨g, hg, hstart, hstop, -, hcode⟩ := h.holds p hp
  have hget : s.functions.get? p.id = some f := by
    rw [hpid]
    exact s.functions.get?_of_mem hf
  obtain rfl := Option.some.inj (hget.symm.trans hg)
  exact ⟨p, hp, hpid, hstart, hstop, hcode⟩

end Script

lemma Scheduled.tie_of_le {schedule : List Scheduled} (hbefore : schedule.Pairwise Scheduled.Before)
    (hparts : (schedule.map Scheduled.part).Nodup) {a b : Scheduled} (ha : a ∈ schedule)
    (hb : b ∈ schedule) (hne : a ≠ b) (hab : a.le b = true) (hba : b.le a = true) : a.Tie b := by
  have hpart : a.part ≠ b.part := fun he => hne (List.inj_on_of_nodup_map hparts ha hb he)
  have : Std.Symm fun a b : Scheduled => a.Before b ∨ b.Before a := ⟨fun _ _ h => h.symm⟩
  have hboth := (hbefore.imp fun hab => Or.inl hab).forall
    (R := fun a b => a.Before b ∨ b.Before a) ha hb hne
  rw [Scheduled.le_iff] at hab hba
  unfold Scheduled.Before at hboth
  exact ⟨by omega, by omega, by omega, hpart⟩

namespace Script

variable {s after : Script} {roots : List Root} {stop : Nat}

/-- The parts of the code region in the order in which they are laid out. -/
def laidSchedule (s : Script) (roots : List Root) : List Scheduled :=
  (forestPlots 0 roots).map Plot.scheduled ++ s.allTables.map Scheduled.ofTable

lemma start_le_stop_of_mem_laidSchedule {a : Scheduled} (ha : a ∈ s.laidSchedule roots) :
    a.start ≤ a.stop := by
  rcases List.mem_append.mp ha with ha | ha
  · obtain ⟨p, -, rfl⟩ := List.mem_map.mp ha
    exact Nat.le_add_right _ _
  · obtain ⟨entry, -, rfl⟩ := List.mem_map.mp ha
    exact Nat.le_add_right _ _

namespace LaidOut

lemma laidSchedule_perm (h : s.LaidOut roots stop after) :
    (after.laidSchedule roots).Perm after.schedule := by
  have hparts := (scheduled_perm h.tiled.holds h.tiled.once).append_right
    (after.allTables.map Scheduled.ofTable)
  exact hparts.symm.trans (List.mergeSort_perm _ _).symm

lemma follows (h : s.LaidOut roots stop after) :
    Follows after.body? (after.allTables.map Scheduled.ofTable) (fun _ => False) 0
      (after.laidSchedule roots) roots := by
  have hg := h.grows
  rw [← h.body?] at hg
  exact .of_grows hg 0

lemma pairwise_before (h : s.LaidOut roots stop after) :
    (after.laidSchedule roots).Pairwise Scheduled.Before := by
  have ht := h.tiled.tables
  refine List.pairwise_append.mpr ⟨?_, before_ofTable ht, ?_⟩
  · exact List.pairwise_map.mpr (pairwise_before_forestPlots 0 roots)
  · intro a ha b hb
    obtain ⟨p, hp, rfl⟩ := List.mem_map.mp ha
    obtain ⟨entry, he, rfl⟩ := List.mem_map.mp hb
    have hp := (bounds_of_mem_forestPlots hp).2
    have he := (ht.bounds (List.mem_map_of_mem he)).1
    have hle : p.start ≤ p.stop := Nat.le_add_right _ _
    simp only [Table.span] at he
    simp only [Scheduled.Before, Plot.scheduled, Scheduled.ofTable]
    omega

lemma nodup_parts (h : s.LaidOut roots stop after) :
    ((after.laidSchedule roots).map Scheduled.part).Nodup := by
  have hplots := (h.nodup_plots 0).map (f := Part.function) fun a b hab => Part.function.inj hab
  have htables := after.nodup_allTables.map (f := Part.table) fun a b hab => Part.table.inj hab
  rw [List.map_map] at hplots htables
  rw [laidSchedule, List.map_append, List.map_map, List.map_map, List.nodup_append]
  refine ⟨hplots, htables, ?_⟩
  rintro a ha b hb rfl
  obtain ⟨p, -, rfl⟩ := List.mem_map.mp ha
  obtain ⟨entry, -, he⟩ := List.mem_map.mp hb
  cases he

/-- The schedule differs from the order of laying out only where parts are ties. -/
lemma tiePerm (h : s.LaidOut roots stop after) :
    TiePerm Scheduled.Tie (after.laidSchedule roots) after.schedule := by
  have hsorted : (after.laidSchedule roots).Pairwise fun a b => a.le b = true :=
    h.pairwise_before.imp_of_mem fun _ hb hab => hab.le (start_le_stop_of_mem_laidSchedule hb)
  exact .of_sorted h.laidSchedule_perm h.nodup_parts.of_map hsorted (Scheduled.pairwise_schedule after)
    fun _ ha _ hb => Scheduled.tie_of_le h.pairwise_before h.nodup_parts ha hb

/-- A laid out script is in place; only functions without code may have changed their order. -/
theorem stands (h : s.LaidOut roots stop after) :
    ∃ roots', after.Stands roots' stop ∧
      (forestPlots 0 roots').Perm (forestPlots 0 roots) := by
  have htail : ∀ e ∈ after.allTables.map Scheduled.ofTable, e.start < e.stop := by
    intro e he
    obtain ⟨entry, -, rfl⟩ := List.mem_map.mp he
    simp only [Scheduled.ofTable, Table.payloadSize]
    omega
  obtain ⟨roots', hfollows, hplots⟩ := h.follows.of_ties htail h.tiePerm
  have hids : (forestIds roots').Perm (forestIds roots) := by
    rw [← map_id_forestPlots 0, ← map_id_forestPlots 0]
    exact hplots.map Plot.id
  refine ⟨roots', ⟨hfollows, fun p hp => h.tiled.holds p (hplots.subset hp), ?_, ?_,
    h.tiled.values, h.fits⟩, hplots⟩
  · rw [h.ids_eq]
    exact hids.trans h.perm_ids
  · rw [forestSize_eq_of_perm hplots]
    exact h.tiled.tables

end LaidOut

end Script

end ScriptContainer
