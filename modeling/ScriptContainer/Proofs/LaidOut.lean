import ScriptContainer.Document.ScopeChain
import ScriptContainer.Proofs.Forests
import ScriptContainer.Proofs.Placing
import ScriptContainer.Proofs.TableSettling

/-!
# What laying out brings about

Laying out grows the forest of a script in the order in which functions are laid out. The roots
follow each other from the start of the code region, and the tables follow the roots. It fails only
for want of a function or of room.
-/

namespace ScriptContainer

namespace Script

/-- Every instruction of a forest is one of a function that had no place. -/
lemma forestSize_add_pendingSize {s : Script} {seen : RecordId → Prop} {placed ids : List RecordId}
    {roots : List Root} (h : Grows s.body? seen ids roots) (hs : ∀ x, seen x ↔ x ∈ placed) :
    forestSize roots + s.pendingSize (forestIds roots ++ placed) = s.pendingSize placed := by
  induction h generalizing placed with
  | nil => simp [forestSize, forestIds]
  | reached _ _ ih => exact ih hs
  | @root seen root ids roots hid hb hproper _ ih =>
    obtain ⟨f, hf, hc⟩ := Option.map_eq_some_iff.mp hb
    have h₀ := pendingSize_cons hf fun hx => hid ((hs _).mpr hx)
    have h₁ : root.nesting.size + s.pendingSize (root.nesting.ids ++ root.id :: placed) =
        codeSize root.nesting.code + s.pendingSize (root.id :: placed) :=
      size_add_pendingSize (hproper.congr fun x => by simp [hs])
    have h₂ : forestSize roots +
        s.pendingSize (forestIds roots ++ (root.nesting.ids ++ root.id :: placed)) =
          s.pendingSize (root.nesting.ids ++ root.id :: placed) :=
      ih fun x => by simp [Root.ids, hs]; tauto
    have h₃ : s.pendingSize (forestIds (root :: roots) ++ placed) =
        s.pendingSize (forestIds roots ++ (root.nesting.ids ++ root.id :: placed)) :=
      pending_congr fun x => by simp [Root.ids]; tauto
    rw [h₃, h₀, hc, forestSize_cons]
    omega

end Script

namespace LayOut

/-- What placing functions that stand on their own brings about. -/
def Plants (before : Layout) (ids : List RecordId) (after : Layout) : Prop :=
  ∃ roots, Grows before.script.body? (· ∈ before.placed) ids roots ∧
    before.Advances (forestPlots before.cursor roots) (forestSize roots) after

namespace Plants

variable {a b c : Layout} {ids more : List RecordId}

lemma nil (h : a.cursor < UInt32.size) : Plants a [] a := ⟨[], .nil, .refl h⟩

lemma append (hab : Plants a ids b) (hbc : Plants b more c) : Plants a (ids ++ more) c := by
  obtain ⟨roots, hgrows, hadv⟩ := hab
  obtain ⟨roots', hgrows', hadv'⟩ := hbc
  rw [hadv.body?] at hgrows'
  refine ⟨roots ++ roots', ?_, ?_⟩
  · refine hgrows.append (hgrows'.congr fun x => ?_)
    rw [hadv.placed, map_id_forestPlots]
  · rw [forestPlots_append, forestSize_append]
    rw [hadv.cursor] at hadv'
    refine hadv.trans hadv' fun x hx hx' => ?_
    rw [map_id_forestPlots] at hx'
    exact hgrows'.nodup.2 x hx' ((hadv.placed x).mpr (.inl hx))

lemma reached {id : RecordId} (hc : a.cursor < UInt32.size) (h : id ∈ a.placed) :
    Plants a [id] a :=
  ⟨[], .reached h .nil, .refl hc⟩

lemma of_places {f : Function} (hf : a.script.functions.get? f.id = some f) (h : f.id ∉ a.placed)
    (hp : Places a f false b) : Plants a [f.id] b := by
  obtain ⟨n, hn, hproper, hadv⟩ := hp
  let root : Root := ⟨f.id, n⟩
  have hb : a.script.body? root.id = some root.nesting.code := by
    simp [Script.body?, root, hf, hn]
  refine ⟨[root], .root h hb hproper .nil, ?_⟩
  simpa [forestPlots, Root.plots, Root.plot, forestSize] using hadv

lemma pendingSize (h : Plants a ids b) :
    b.cursor + b.script.pendingSize b.placed = a.cursor + a.script.pendingSize a.placed := by
  obtain ⟨roots, hgrows, hadv⟩ := h
  have hp : b.script.pendingSize b.placed =
      a.script.pendingSize (forestIds roots ++ a.placed) := by
    rw [hadv.script, Script.pendingSize_settleFunctions]
    exact Script.pending_congr fun x => by rw [hadv.placed, map_id_forestPlots, List.mem_append]
  have := Script.forestSize_add_pendingSize hgrows fun _ => Iff.rfl
  rw [hp, hadv.cursor]
  omega

lemma body? (h : Plants a ids b) : b.script.body? = a.script.body? := by
  obtain ⟨roots, -, hadv⟩ := h
  exact hadv.body?

end Plants

variable {start layout : Layout} {ids : List RecordId}

lemma plants_outcome (act : Function → LayOut Unit) (fs : List Function)
    (hact : ∀ f ∈ fs, ∀ ids layout, Plants start ids layout →
      Outcome (act f layout) (fun _ after => Plants layout [f.id] after)
        (Stops layout.script.body? (layout.cursor + layout.script.pendingSize layout.placed)))
    (h : Plants start ids layout) :
    Outcome (fs.forM act layout) (fun _ after => Plants start (ids ++ fs.map Function.id) after)
      (Stops start.script.body? (start.cursor + start.script.pendingSize start.placed)) := by
  induction fs generalizing ids layout with
  | nil =>
    rw [List.map_nil, List.append_nil]
    exact h
  | cons f fs ih =>
    change Outcome ((act f >>= fun _ => fs.forM act) layout) _ _
    refine Outcome.bind ((hact f (by simp) ids layout h).mono (fun _ _ h => h) ?_) ?_
    · intro e he
      rwa [h.pendingSize, h.body?] at he
    · intro _ next hnext
      have := ih (fun g hg => hact g (List.mem_cons_of_mem f hg)) (h.append hnext)
      simpa using this

lemma Plants.get?_eq (h : Plants start ids layout) {id : RecordId} (hid : id ∉ layout.placed) :
    layout.script.functions.get? id = start.script.functions.get? id := by
  obtain ⟨roots, -, hadv⟩ := h
  rw [hadv.script, Script.get?_settleFunctions_of_notMem fun hx => hid ((hadv.placed id).mpr (.inl hx))]

lemma Plants.fits (h : Plants start ids layout) : layout.cursor < UInt32.size := by
  obtain ⟨roots, -, hadv⟩ := h
  exact hadv.fits

lemma placeOnce_places (f : Function) (layout : Layout) (hc : layout.cursor < UInt32.size)
    (hp : f.id ∉ layout.placed) (hf : layout.script.functions.get? f.id = some f) :
    Outcome (placeOnce f.id layout) (fun _ after => Places layout f f.isInline after)
      (Stops layout.script.body? (layout.cursor + layout.script.pendingSize layout.placed)) := by
  unfold placeOnce
  rw [bind_of_ok isPlaced_apply, if_neg (by simpa using hp)]
  exact placesWithin _ f.id f layout hf hp hc (Nat.le_succ_of_le Script.pendingCount_le)

lemma placeOnce_outcome {f : Function} (hc : layout.cursor < UInt32.size)
    (hf : f.id ∉ layout.placed → layout.script.functions.get? f.id = some f)
    (hi : f.isInline = false) :
    Outcome (placeOnce f.id layout) (fun _ after => Plants layout [f.id] after)
      (Stops layout.script.body? (layout.cursor + layout.script.pendingSize layout.placed)) := by
  by_cases hp : f.id ∈ layout.placed
  · unfold placeOnce
    rw [bind_of_ok isPlaced_apply, if_pos (by simpa using hp)]
    exact .reached hc hp
  · refine (placeOnce_places f layout hc hp (hf hp)).mono ?_ fun _ h => h
    intro _ after hafter
    rw [hi] at hafter
    exact .of_places (hf hp) hp hafter

/-- What laying out does with an inline function that nothing has reached. -/
def placeOrphan (f : Function) : LayOut Unit := do
  if ← isPlaced f.id then return ()
  else
    modifyFunction f.id fun _ f => { f with isInline := false }
    placeOnce f.id

lemma placeOrphan_outcome {f : Function} (hc : layout.cursor < UInt32.size)
    (hf : f.id ∉ layout.placed → layout.script.functions.get? f.id = some f) :
    Outcome (placeOrphan f layout) (fun _ after => Plants layout [f.id] after)
      (Stops layout.script.body? (layout.cursor + layout.script.pendingSize layout.placed)) := by
  unfold placeOrphan
  rw [bind_of_ok isPlaced_apply]
  by_cases hp : f.id ∈ layout.placed
  · rw [if_pos (by simpa using hp)]
    exact .reached hc hp
  · rw [if_neg (by simpa using hp), bind_of_ok (modifyFunction_apply _)]
    have hm := Script.get?_mark (hf hp) false
    refine (placeOnce_places { f with isInline := false }
      { layout with script := layout.script.mark f.id false } hc hp hm).mono ?_ ?_
    · intro _ after hafter
      exact .of_places (hf hp) hp (Places.of_mark hafter)
    · intro e he
      rwa [Script.pendingSize_mark, Script.body?_mark] at he

lemma placeTable_apply {ref : TableRef} {t : Table} (h : t.values.size < UInt32.size) :
    placeTable ref t layout =
      advance t.filledSize
        { layout with script := layout.script.replaceTable ref.owner (t.settle layout.cursor) } := by
  rw [← Table.payloadSize_settle layout.cursor h]
  unfold placeTable
  rw [if_pos h]
  rfl

/-- What laying out does with tables. -/
def placeTables (entries : List (TableRef × Table)) : LayOut Unit :=
  entries.forM fun (ref, t) => placeTable ref t

lemma placeTables_cons (ref : TableRef) (t : Table) (entries : List (TableRef × Table)) :
    placeTables ((ref, t) :: entries) = (placeTable ref t >>= fun _ => placeTables entries) := rfl

lemma tables_outcome {entries : List (TableRef × Table)} (hn : (entries.map Prod.fst).Nodup)
    (body? : RecordId → Option (Body .bound)) (layout : Layout)
    (ht : ∀ entry ∈ entries, layout.script.table? entry.1 = some entry.2)
    (hc : layout.cursor < UInt32.size) :
    Outcome (placeTables entries layout)
      (fun _ after =>
        after.script = layout.script.settleTables (tableStarts layout.cursor entries) ∧
          after.cursor = layout.cursor + tablesSize entries ∧ after.cursor < UInt32.size ∧
          after.placed = layout.placed)
      (Stops body? (layout.cursor + tablesSize entries)) := by
  induction entries generalizing layout with
  | nil => exact ⟨(Script.settleTables_nil _).symm, rfl, hc, rfl⟩
  | cons entry entries ih =>
    obtain ⟨ref, t⟩ := entry
    rw [List.map_cons, List.nodup_cons] at hn
    obtain ⟨href, hn⟩ := hn
    have hsize := t.le_filledSize
    rw [placeTables_cons, tablesSize_cons]
    by_cases hlong : t.values.size < UInt32.size
    case neg =>
      rw [bind_of_error (by rw [placeTable, if_neg hlong]; rfl)]
      exact Stops.of_reach (by omega)
    by_cases hfits : layout.cursor + t.filledSize < UInt32.size
    case neg =>
      rw [bind_of_error (by rw [placeTable_apply hlong, advance_apply, if_neg hfits])]
      exact Stops.of_reach (by omega)
    rw [bind_of_ok (by rw [placeTable_apply hlong, advance_apply, if_pos hfits]),
      Script.replaceTable_settle (ht (ref, t) (by simp)) layout.cursor]
    refine (ih hn ⟨_, _, layout.placed⟩ ?_ hfits).mono ?_ ?_
    · intro entry hentry
      have hne : entry.1 ∉ [(ref, layout.cursor)].map Prod.fst := by
        rw [List.map_singleton, List.mem_singleton]
        intro he
        exact href (he ▸ List.mem_map_of_mem hentry)
      rw [Script.table?_settleTables_of_notMem hne]
      exact ht entry (by simp [hentry])
    · rintro _ after ⟨hs, hcur, hfit, hplaced⟩
      refine ⟨?_, by rw [hcur, Nat.add_assoc], hfit, hplaced⟩
      rw [hs, Script.settleTables_settleTables]
      · rfl
      · intro x hx
        rw [map_fst_tableStarts]
        rw [List.map_singleton, List.mem_singleton] at hx
        rwa [hx]
    · intro e he
      rwa [← Nat.add_assoc]

end LayOut

namespace Script

/-- The bytes of all code and all tables. -/
def regionSize (s : Script) : Nat :=
  (s.functions.records.map fun f => codeSize f.code).sum + tablesSize s.allTables

lemma pendingSize_nil (s : Script) :
    s.pendingSize [] = (s.functions.records.map fun f => codeSize f.code).sum := by
  simp [pendingSize, pending]

lemma allTables_settleFunctions (s : Script) (plots : List Plot) :
    (s.settleFunctions plots).allTables = s.allTables := by
  simp [allTables, settleFunctions, mapFunctions, List.flatMap_map, Function.tables_settle]

/-- The script after it is laid out, its roots being `roots` and its code region ending at
`stop`. -/
structure LaidOut (s : Script) (roots : List Root) (stop : Nat) (after : Script) : Prop where
  grows : Grows s.body? (fun _ => False) (s.layoutOrder.map Function.id) roots
  script : after = (s.settleFunctions (forestPlots 0 roots)).settleTables
    (tableStarts (forestSize roots) s.allTables)
  length : stop = forestSize roots + tablesSize s.allTables
  fits : stop < UInt32.size

end Script

namespace LayOut

/-- The functions that nothing has reached are the inline ones without a place. -/
lemma map_id_orphans {s : Script} {ids : List RecordId} {layout : Layout}
    (h : Plants ⟨s, 0, []⟩ ids layout) :
    (layout.script.functions.records.reverse.filter fun f =>
        f.isInline && !layout.placed.elem f.id).map Function.id =
      ((s.functions.records.reverse.filter Function.isInline).map Function.id).filter
        fun id => !layout.placed.elem id := by
  obtain ⟨roots, -, hadv⟩ := h
  rw [hadv.script, Script.settleFunctions, Script.functions_mapFunctions, Registry.records_map,
    ← List.map_reverse, List.filter_map, List.map_map, List.filter_map, List.filter_filter]
  have hid : Function.id ∘ Function.settle (forestPlots 0 roots) = Function.id :=
    funext fun f => f.id_settle (forestPlots 0 roots)
  rw [hid]
  refine congrArg (List.map Function.id) (List.filter_congr fun f _ => ?_)
  by_cases hp : f.id ∈ layout.placed
  · simp [hp]
  · have : f.settle (forestPlots 0 roots) = f :=
      Function.settle_of_notMem fun hx => hp ((hadv.placed f.id).mpr (.inl hx))
    simp [this, Bool.and_comm]

lemma topLevel_outcome (s : Script) :
    Outcome ((s.functions.records.reverse.filter fun f => !f.isInline).forM
        (fun f => placeOnce f.id) ⟨s, 0, []⟩)
      (fun _ => Plants ⟨s, 0, []⟩
        ((s.functions.records.reverse.filter fun f => !f.isInline).map Function.id))
      (Stops s.body? (0 + s.pendingSize [])) := by
  refine plants_outcome (fun f => placeOnce f.id) _ (fun f hf ids layout h => ?_)
    (.nil (show 0 < UInt32.size by decide))
  obtain ⟨hmem, hi⟩ := List.mem_filter.mp hf
  refine placeOnce_outcome h.fits (fun hp => ?_) (by simpa using hi)
  rw [h.get?_eq hp]
  exact s.functions.get?_of_mem (List.mem_reverse.mp hmem)

lemma orphans_outcome {s : Script} {ids : List RecordId} {reached : Layout}
    (h : Plants ⟨s, 0, []⟩ ids reached) :
    Outcome ((reached.script.functions.records.reverse.filter fun f =>
        f.isInline && !reached.placed.elem f.id).forM placeOrphan reached)
      (fun _ => Plants reached ((s.functions.records.reverse.filter Function.isInline).map Function.id))
      (Stops s.body? (0 + s.pendingSize [])) := by
  refine (plants_outcome placeOrphan _ (fun f hf ids layout hplants => ?_) (.nil h.fits)).mono
    (fun _ planted hplanted => ?_) fun e he => ?_
  · refine placeOrphan_outcome hplants.fits fun hp => ?_
    rw [hplants.get?_eq hp]
    exact reached.script.functions.get?_of_mem (List.mem_reverse.mp (List.mem_filter.mp hf).1)
  · rw [List.nil_append, map_id_orphans h] at hplanted
    obtain ⟨roots, hgrows, hadv⟩ := hplanted
    exact ⟨roots, hgrows.of_filter fun id hid => by simpa using hid, hadv⟩
  · rwa [h.pendingSize, h.body?] at he

theorem script_outcome (s : Script) :
    Outcome (script ⟨s, 0, []⟩)
      (fun _ after => ∃ roots, s.LaidOut roots after.cursor after.script ∧
        after.placed.Perm (forestIds roots))
      (Stops s.body? s.regionSize) := by
  let start : Layout := ⟨s, 0, []⟩
  have hsize : 0 + s.pendingSize [] ≤ s.regionSize := by
    rw [Script.pendingSize_nil, Script.regionSize]
    omega
  unfold script
  rw [bind_of_ok (rfl : (get : LayOut Layout) start = .ok start start)]
  refine Outcome.bind ((topLevel_outcome s).mono (fun _ _ h => h) fun _ he => he.mono hsize)
    fun _ reached hreached => ?_
  rw [bind_of_ok (rfl : (get : LayOut Layout) reached = .ok reached reached)]
  -- The orphans are those inline functions that the top level has not reached.
  refine Outcome.bind ((orphans_outcome hreached).mono (fun _ _ h => h) fun _ he => he.mono hsize)
    fun _ planted hplanted => ?_
  rw [bind_of_ok (rfl : (get : LayOut Layout) planted = .ok planted planted)]
  have horder := hreached.append hplanted
  rw [← List.map_append] at horder
  obtain ⟨roots, hgrows, hadv⟩ := horder
  have hall : planted.script.allTables = s.allTables := by
    rw [hadv.script, Script.allTables_settleFunctions]
  have hcursor : planted.cursor = forestSize roots := by rw [hadv.cursor, Nat.zero_add]
  have hforest : forestSize roots ≤ s.pendingSize [] := by
    have := Script.forestSize_add_pendingSize hgrows fun _ => Iff.rfl
    exact Nat.le_of_add_right_le this.le
  refine (tables_outcome planted.script.nodup_allTables s.body? planted
    (fun entry h => Script.mem_allTables.mp h) hadv.fits).mono ?_ ?_
  · rintro _ after ⟨hscript, hend, hfits, hplaced⟩
    refine ⟨roots, ⟨hgrows.congr fun x => List.mem_nil_iff x, ?_, ?_, hfits⟩, ?_⟩
    · rw [hscript, hall, hadv.script, hcursor]
    · rw [hend, hall, hcursor]
    · rw [hplaced, ← map_id_forestPlots start.cursor]
      simpa [start] using hadv.perm
  · intro e he
    refine he.mono ?_
    rw [hcursor, hall, Script.regionSize, ← Script.pendingSize_nil]
    omega

end LayOut

/-- Laying out grows the forest of the script, or fails for want of a function or of room. -/
theorem Script.assignOffsets_outcome (s : Script) :
    Outcome (assignOffsets s) (fun stop after => ∃ roots, s.LaidOut roots stop after)
      (LayOut.Fails s.regionSize) := by
  have h := LayOut.script_outcome s
  unfold assignOffsets
  cases hrun : LayOut.script ⟨s, 0, []⟩ with
  | ok _ after =>
    rw [hrun] at h
    obtain ⟨roots, hlaid, -⟩ := h
    exact ⟨roots, hlaid⟩
  | error e after =>
    rw [hrun] at h
    exact h.1

/-- Laying out succeeds if there is room and every function that is started is there. -/
theorem Script.exists_assignOffsets {s : Script} (hstarts : LayOut.Starts s.body?)
    (hroom : s.regionSize < UInt32.size) : ∃ stop after, assignOffsets s = .ok stop after := by
  have h := LayOut.script_outcome s
  unfold assignOffsets
  cases hrun : LayOut.script ⟨s, 0, []⟩ with
  | ok _ after => exact ⟨_, _, rfl⟩
  | error e after =>
    rw [hrun] at h
    exact absurd ⟨hstarts, hroom⟩ h.2

lemma Script.mem_layoutOrder {s : Script} {id : RecordId} :
    id ∈ s.layoutOrder.map Function.id ↔ id ∈ s.functions.ids := by
  simp only [layoutOrder, Registry.ids, List.mem_map, List.mem_append, List.mem_filter,
    List.mem_reverse]
  constructor
  · rintro ⟨f, ⟨hf, -⟩ | ⟨hf, -⟩, rfl⟩ <;> exact ⟨f, hf, rfl⟩
  · rintro ⟨f, hf, rfl⟩
    cases hi : f.isInline with
    | false => exact ⟨f, .inl ⟨hf, by simp [hi]⟩, rfl⟩
    | true => exact ⟨f, .inr ⟨hf, hi⟩, rfl⟩

namespace Script.LaidOut

variable {s after : Script} {roots : List Root} {stop : Nat}

lemma perm_ids (h : s.LaidOut roots stop after) : (forestIds roots).Perm s.functions.ids := by
  refine (List.perm_ext_iff_of_nodup h.grows.nodup.1 s.functions.nodup).mpr fun id => ?_
  constructor
  · intro hid
    rw [← map_id_forestPlots 0] at hid
    obtain ⟨p, hp, rfl⟩ := List.mem_map.mp hid
    have hb := h.grows.body?_eq hp
    refine Registry.get?_isSome_iff.mp ?_
    cases hf : s.functions.get? p.id with
    | none => simp [body?, hf] at hb
    | some f => rfl
  · intro hid
    exact (h.grows.mem_of_mem (mem_layoutOrder.mpr hid)).resolve_right fun h => h

lemma nodup_plots (h : s.LaidOut roots stop after) (start : Nat) :
    ((forestPlots start roots).map Plot.id).Nodup := by
  rw [map_id_forestPlots]
  exact h.grows.nodup.1

lemma get?_plot (h : s.LaidOut roots stop after) {p : Plot} (hp : p ∈ forestPlots 0 roots) :
    ∃ f, s.functions.get? p.id = some f ∧ f.code = p.nesting.code ∧
      after.functions.get? p.id = some (Function.settleTables
        (tableStarts (forestSize roots) s.allTables)
        { f with
          codeStart := UInt32.ofNat p.start, codeEnd := UInt32.ofNat p.stop,
          isInline := p.isInline }) := by
  obtain ⟨f, hf, hc⟩ := Option.map_eq_some_iff.mp (h.grows.body?_eq hp)
  have hid : f.id = p.id := Registry.id_of_get? hf
  refine ⟨f, hf, hc, ?_⟩
  rw [h.script, get?_settleTables, get?_settleFunctions, hf, Option.map_some, Option.map_some,
    Function.settle_of_mem (h.nodup_plots 0) hp hid.symm]

end Script.LaidOut

end ScriptContainer
