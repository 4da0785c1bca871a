import ScriptContainer.Proofs.LaidOut
import ScriptContainer.Proofs.Plots

/-!
# The tiling of the code region

Laying out gives every function one place. The places lie inside each other or apart, those that
lie in no other follow each other without gap, and the tables follow them.
-/

namespace ScriptContainer

/-- Spans that follow each other without gap from `start` to `stop`. -/
def Tiles : Nat → List (Nat × Nat) → Nat → Prop
  | start, [], stop => start = stop
  | start, (a, b) :: rest, stop => a = start ∧ a ≤ b ∧ Tiles b rest stop

namespace Tiles

variable {start stop : Nat} {spans : List (Nat × Nat)}

lemma start_le_stop (h : Tiles start spans stop) : start ≤ stop := by
  induction spans generalizing start with
  | nil => exact h.le
  | cons span spans ih =>
    obtain ⟨rfl, hle, h⟩ := h
    exact hle.trans (ih h)

lemma bounds (h : Tiles start spans stop) {span : Nat × Nat} (hs : span ∈ spans) :
    start ≤ span.1 ∧ span.1 ≤ span.2 ∧ span.2 ≤ stop := by
  induction spans generalizing start with
  | nil => simp at hs
  | cons first spans ih =>
    obtain ⟨rfl, hle, h⟩ := h
    rcases List.mem_cons.mp hs with rfl | hs
    · exact ⟨le_rfl, hle, h.start_le_stop⟩
    · have := ih h hs
      exact ⟨hle.trans this.1, this.2⟩

lemma pairwise (h : Tiles start spans stop) : spans.Pairwise fun a b => a.2 ≤ b.1 := by
  induction spans generalizing start with
  | nil => exact .nil
  | cons span spans ih =>
    obtain ⟨rfl, -, h⟩ := h
    rw [List.pairwise_cons]
    exact ⟨fun other ho => (h.bounds ho).1, ih h⟩

lemma four_dvd (h : Tiles start spans stop) (hstart : 4 ∣ start)
    (hspans : ∀ span ∈ spans, 4 ∣ span.1 → 4 ∣ span.2) :
    ∀ span ∈ spans, 4 ∣ span.1 := by
  induction spans generalizing start with
  | nil => exact fun _ hs => absurd hs List.not_mem_nil
  | cons span spans ih =>
    obtain ⟨rfl, -, h⟩ := h
    rw [List.forall_mem_cons] at hspans
    exact List.forall_mem_cons.mpr ⟨hstart, ih h (hspans.1 hstart) hspans.2⟩

end Tiles

/-- The first byte of the code, and the byte after it. -/
def Plot.span (p : Plot) : Nat × Nat := (p.start, p.stop)

/-- The first byte of the code, and the byte after it. -/
def Function.span (f : Function) : Nat × Nat := (f.codeStart.toNat, f.codeEnd.toNat)

/-- The first byte of the payload, and the byte after it. -/
def Table.span (t : Table) : Nat × Nat := (t.start.toNat, t.start.toNat + t.payloadSize)

lemma tiles_rootPlots (start : Nat) (roots : List Root) :
    Tiles start ((rootPlots start roots).map Plot.span) (start + forestSize roots) := by
  induction roots generalizing start with
  | nil => rfl
  | cons root roots ih =>
    have := ih (start + root.nesting.size)
    rw [Nat.add_assoc, ← forestSize_cons] at this
    exact ⟨rfl, Nat.le_add_right _ _, this⟩

lemma tiles_settleFrom {start : Nat} {entries : List (TableRef × Table)}
    (h : start + tablesSize entries < UInt32.size) :
    Tiles start ((settleFrom start entries).map fun entry => entry.2.span)
      (start + tablesSize entries) := by
  induction entries generalizing start with
  | nil => rfl
  | cons entry entries ih =>
    obtain ⟨ref, t⟩ := entry
    rw [tablesSize_cons, ← Nat.add_assoc] at h ⊢
    have hsize := t.le_filledSize
    have hstart : (t.settle start).start.toNat = start :=
      UInt32.toNat_ofNat_of_lt' (by omega)
    have hspan : (t.settle start).span = (start, start + t.filledSize) := by
      rw [Table.span, hstart, Table.payloadSize_settle start (by omega)]
    rw [settleFrom, List.map_cons, hspan]
    exact ⟨rfl, Nat.le_add_right _ _, ih h⟩

lemma length_of_mem_settleFrom {start : Nat} {entries : List (TableRef × Table)}
    (h : start + tablesSize entries < UInt32.size) :
    ∀ entry ∈ settleFrom start entries, entry.2.length.toNat = entry.2.values.size := by
  induction entries generalizing start with
  | nil => simp [settleFrom]
  | cons entry entries ih =>
    obtain ⟨ref, t⟩ := entry
    rw [tablesSize_cons, ← Nat.add_assoc] at h
    have hsize := t.le_filledSize
    rw [settleFrom, List.forall_mem_cons]
    exact ⟨UInt32.toNat_ofNat_of_lt' (by omega), ih h⟩

/-- The function of the plot has its offsets, its inline flag and its code. -/
def Script.Holds (s : Script) (p : Plot) : Prop :=
  ∃ f, s.functions.get? p.id = some f ∧ f.codeStart.toNat = p.start ∧ f.codeEnd.toNat = p.stop ∧
    f.isInline = p.isInline ∧ f.code = p.nesting.code

/-- The code region of a script tiled by the plots of its functions, which take the bytes up to
`codeStop`, and by its tables, which take those up to `stop`. -/
structure Script.Tiled (s : Script) (plots : List Plot) (codeStop stop : Nat) : Prop where
  /-- Every function has one plot. -/
  once : (plots.map Plot.id).Perm s.functions.ids
  holds : ∀ p ∈ plots, s.Holds p
  laminar : plots.Pairwise Plot.Laminar
  /-- The inline functions are the guests, and each of them has one host. -/
  guests : (plots.flatMap Plot.guests).Perm (plots.filter Plot.isInline)
  length : ∀ p ∈ plots, p.stop - p.start =
    codeSize p.nesting.code + (p.guests.map fun q => q.stop - q.start).sum
  /-- A guest starts where an instruction of its host that starts it ends. -/
  starts : ∀ p ∈ plots, ∀ q ∈ p.guests, ∃ i, (i, q.start) ∈ p.instructions ∧
    i.spawned? = some q.id
  /-- No instruction that ends before that starts the guest. -/
  first : ∀ q ∈ plots, ∀ p ∈ plots, ∀ i stop, (i, stop) ∈ p.instructions →
    i.spawned? = some q.id → q.start ≤ stop
  /-- No two instructions end at the same byte. -/
  stops : ((plots.flatMap Plot.instructions).map Prod.snd).Nodup
  roots : Tiles 0 ((plots.filter fun p => !p.isInline).map Plot.span) codeStop
  tables : Tiles codeStop (s.allTables.map fun entry => entry.2.span) stop
  values : ∀ entry ∈ s.allTables, entry.2.length.toNat = entry.2.values.size

namespace Script.LaidOut

variable {s after : Script} {roots : List Root} {stop : Nat}

lemma allTables (h : s.LaidOut roots stop after) :
    after.allTables = settleFrom (forestSize roots) s.allTables := by
  have := allTables_settleTables_tableStarts (s.settleFunctions (forestPlots 0 roots)) (forestSize roots)
  rwa [allTables_settleFunctions, ← h.script] at this

lemma ids_eq (h : s.LaidOut roots stop after) : after.functions.ids = s.functions.ids := by
  rw [h.script, settleTables, functions_mapFunctions, Registry.ids_map, ids_settleFunctions]

lemma holds (h : s.LaidOut roots stop after) {p : Plot} (hp : p ∈ forestPlots 0 roots) :
    after.Holds p := by
  obtain ⟨f, -, hc, hget⟩ := h.get?_plot hp
  have hbounds := bounds_of_mem_forestPlots hp
  have hle : p.start ≤ p.stop := Nat.le_add_right _ _
  have := h.length
  have := h.fits
  exact ⟨_, hget, UInt32.toNat_ofNat_of_lt' (by omega), UInt32.toNat_ofNat_of_lt' (by omega),
    rfl, hc⟩

theorem tiled (h : s.LaidOut roots stop after) :
    after.Tiled (forestPlots 0 roots) (forestSize roots) stop where
  once := by
    rw [map_id_forestPlots, h.ids_eq]
    exact h.perm_ids
  holds _ hp := h.holds hp
  laminar := pairwise_laminar_forestPlots 0 roots
  guests := forest_guests_perm 0 roots
  length p _ := by
    have := p.nesting.size_eq p.start
    simp only [Plot.stop, Nat.add_sub_cancel_left]
    exact this
  starts _ hp _ hq := h.grows.exists_instruction hp hq
  first q hq p hp i stop hi hs := by
    obtain hid | ⟨q', hq', hid, hle⟩ := h.grows.reached_before hp hi hs
    · exact hid.elim
    · have : q' = q := List.inj_on_of_nodup_map (h.nodup_plots 0) hq' hq hid
      rwa [← this]
  stops := nodup_forest_stops 0 roots
  roots := by
    have := tiles_rootPlots 0 roots
    rwa [Nat.zero_add, ← filter_not_isInline_forestPlots] at this
  tables := by
    have hfits := h.fits
    rw [h.length] at hfits ⊢
    rw [h.allTables]
    exact tiles_settleFrom hfits
  values := by
    have hfits := h.fits
    rw [h.length] at hfits
    rw [h.allTables]
    exact length_of_mem_settleFrom hfits

lemma body? (h : s.LaidOut roots stop after) : after.body? = s.body? := by
  rw [h.script, body?_settleTables, body?_settleFunctions]

end Script.LaidOut

/-- Laying out places every function once, leaves the code of all functions alone and tiles the
code region. -/
theorem Script.assignOffsets_tiles {s after : Script} {stop : Nat}
    (h : assignOffsets s = .ok stop after) :
    (∃ plots codeStop, after.Tiled plots codeStop stop) ∧ after.functions.ids = s.functions.ids ∧
      after.body? = s.body? ∧
      ∃ layout, LayOut.script ⟨s, 0, []⟩ = .ok () layout ∧ layout.placed.Perm s.functions.ids := by
  have hout := LayOut.script_outcome s
  unfold assignOffsets at h
  cases hrun : LayOut.script ⟨s, 0, []⟩ with
  | error e layout =>
    rw [hrun] at h
    cases h
  | ok _ layout =>
    rw [hrun] at h hout
    cases h
    obtain ⟨roots, hlaid, hperm⟩ := hout
    refine ⟨⟨_, _, hlaid.tiled⟩, hlaid.ids_eq, hlaid.body?, layout, rfl, ?_⟩
    exact hperm.trans hlaid.perm_ids

/-- Two functions that start each other, and a table of three bytes. -/
def Script.roundabout : Script :=
  let starting (id : RecordId) : Instruction .bound := .thread ⟨.function id, [], []⟩
  let first := ((Function.new 1).push (starting 2)).push .return
  let second := ((Function.new 2).push .nop).push (starting 1)
  ((Script.new.addFunction first).addFunction second).addTable
    ⟨1, none, .byte, 0, 0, .bytes [1, 2, 3]⟩

theorem Script.roundabout_tiles :
    ∃ after, assignOffsets roundabout = .ok 52 after ∧
      ∃ plots codeStop, after.Tiled plots codeStop 52 := by
  have hstop : (match assignOffsets roundabout with
    | .ok stop _ => some stop
    | .error _ _ => none) = some 52 := by decide +kernel
  cases h : assignOffsets roundabout with
  | ok stop after =>
    rw [h] at hstop
    obtain rfl : stop = 52 := Option.some.inj hstop
    exact ⟨after, rfl, (assignOffsets_tiles h).1⟩
  | error e after =>
    rw [h] at hstop
    cases hstop

end ScriptContainer
