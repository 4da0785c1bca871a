import ScriptContainer.Container
import ScriptContainer.Proofs.Recomputing

/-!
# What building leaves alone

Building changes where functions and tables stand, which functions are inline, how many elements a
table counts, where labels lead and where instructions jump to. It changes nothing else of a script,
also where it fails, however far it has come.
-/

namespace ScriptContainer

/-- The function without what building finds out. -/
def Function.cleared (f : Function) : Function := { f.unplaced with isInline := false }

lemma Function.id_cleared (f : Function) : f.cleared.id = f.id := rfl

lemma Function.cleared_of_untargeted {f g : Function} (h : g.untargeted = f.untargeted) :
    g.cleared = f.cleared := by
  have htables : g.untargeted.tables = f.untargeted.tables := by rw [h]
  have htables : g.tables = f.tables := htables
  rw [cleared, cleared, unplaced, unplaced, h, htables]

/-- The sizes of the instructions, in order. -/
def Function.sizes (f : Function) : List Nat := f.code.map Instruction.size

lemma Function.sizes_cleared (f : Function) : f.cleared.sizes = f.sizes := by
  change (untargetedCode f.code).map Instruction.size = f.code.map Instruction.size
  rw [untargetedCode, List.map_map]
  exact List.map_congr_left fun i _ => i.size_untargeted

namespace Script

/-- The script without what building finds out. -/
def cleared (s : Script) : Script :=
  { s.mapFunctions Function.cleared Function.id_cleared with
    tables := s.tables.map Table.unplaced Table.id_unplaced }

variable {s t : Script} {f g : Function} {id : RecordId}

lemma functions_cleared (s : Script) :
    s.cleared.functions = s.functions.map Function.cleared Function.id_cleared := rfl

lemma allTables_cleared (s : Script) :
    s.cleared.allTables = s.allTables.map fun entry => (entry.1, entry.2.unplaced) := by
  have hunplaced := s.allTables_unplaced
  simp only [allTables, cleared, unplaced, functions_mapFunctions, Registry.records_map,
    List.flatMap_map] at hunplaced ⊢
  exact hunplaced

lemma cleared_function_eq (h : t.cleared = s.cleared) (hf : f ∈ s.functions.records)
    (hg : g ∈ t.functions.records) (hid : g.id = f.id) : f.cleared = g.cleared := by
  have hget := congrArg (fun s : Script => s.functions.get? f.id) h
  simp only [functions_cleared, Registry.get?_map] at hget
  rw [← hid, show t.functions.get? g.id = some g from t.functions.get?_of_mem hg, hid,
    show s.functions.get? f.id = some f from s.functions.get?_of_mem hf] at hget
  exact (Option.some.inj hget).symm

lemma cleared_table_eq {a b : TableRef × Table} (h : t.cleared = s.cleared) (ha : a ∈ s.allTables)
    (hb : b ∈ t.allTables) (href : b.1 = a.1) : a.2.unplaced = b.2.unplaced := by
  have hall : t.cleared.allTables = s.cleared.allTables := congrArg allTables h
  have ha' : (a.1, a.2.unplaced) ∈ s.cleared.allTables := by
    rw [allTables_cleared]
    exact List.mem_map.mpr ⟨a, ha, rfl⟩
  have hb' : (b.1, b.2.unplaced) ∈ s.cleared.allTables := by
    rw [← hall, allTables_cleared]
    exact List.mem_map.mpr ⟨b, hb, rfl⟩
  exact congrArg Prod.snd (List.inj_on_of_nodup_map s.cleared.nodup_allTables ha' hb' href.symm)

lemma cleared_replace (h : ∀ g ∈ s.functions.records, g.id = f.id → f.cleared = g.cleared) :
    cleared { s with functions := s.functions.replace f } = s.cleared := by
  have hfunctions : (s.functions.replace f).map Function.cleared Function.id_cleared =
      s.functions.map Function.cleared Function.id_cleared := Registry.map_replace h
  unfold cleared mapFunctions
  rw [hfunctions]

lemma cleared_modifyFunction {change : Function → Function}
    (h : ∀ f ∈ s.functions.records, f.id = id → (change f).cleared = f.cleared) :
    (s.modifyFunction id change).cleared = s.cleared := by
  unfold modifyFunction Registry.modify
  cases hf : s.functions.get? id with
  | none => rfl
  | some f =>
    have hmem := Registry.mem_of_get? hf
    have hchange := h f hmem (Registry.id_of_get? hf)
    refine cleared_replace fun g hg hid => ?_
    have hkept : (change f).cleared.id = f.cleared.id := by rw [hchange]
    have hgf : g.id = f.id := hid.trans hkept
    exact hchange.trans (cleared_function_eq rfl hmem hg hgf)

lemma cleared_replaceTable {owner : Owner} {u : Table}
    (h : ∀ entry ∈ s.allTables, entry.1 = ⟨owner, u.id⟩ → u.unplaced = entry.2.unplaced) :
    (s.replaceTable owner u).cleared = s.cleared := by
  rw [allTables, List.forall_mem_append] at h
  cases owner with
  | script =>
    have htables : (s.tables.replace u).map Table.unplaced Table.id_unplaced =
        s.tables.map Table.unplaced Table.id_unplaced :=
      Registry.map_replace fun x hx hid =>
        h.1 _ (List.mem_map_of_mem hx) (congrArg (TableRef.mk .script) hid)
    unfold replaceTable cleared
    dsimp only
    rw [htables]
    rfl
  | function id =>
    refine cleared_modifyFunction fun f hf hid => ?_
    have htables : (f.tables.replace u).map Table.unplaced Table.id_unplaced =
        f.tables.map Table.unplaced Table.id_unplaced := by
      refine Registry.map_replace fun x hx hxu => ?_
      have hxu : x.id = u.id := hxu
      refine h.2 _ (List.mem_flatMap.mpr ⟨f, hf, List.mem_map_of_mem hx⟩) ?_
      rw [hid, hxu]
    unfold Function.cleared Function.unplaced
    dsimp only
    rw [htables]
    rfl

end Script

/-- The script of the layout is `s` but for what building finds out. -/
def Layout.Frames (s : Script) (layout : Layout) : Prop := layout.script.cleared = s.cleared

namespace LayOut

variable {s : Script}

lemma advance_frames (size : Nat) : Upholds (Layout.Frames s) (advance size) := by
  refine Upholds.get_bind fun layout hlayout => ?_
  split
  · exact .set hlayout
  · exact .throw _

lemma isPlaced_frames (id : RecordId) : Upholds (Layout.Frames s) (isPlaced id) :=
  Upholds.get_bind fun _ _ => .pure _

lemma requireFunction_frames (id : RecordId) : Upholds (Layout.Frames s) (requireFunction id) := by
  refine Upholds.get_bind fun layout _ => ?_
  cases layout.script.functions.get? id with
  | some f => exact .pure f
  | none => exact .throw _

lemma modifyFunction_frames (id : RecordId) {change : UInt32 → Function → Function}
    (h : ∀ cursor f, (change cursor f).cleared = f.cleared) :
    Upholds (Layout.Frames s) (modifyFunction id change) :=
  .modify fun layout hlayout =>
    (Script.cleared_modifyFunction fun f _ _ => h (UInt32.ofNat layout.cursor) f).trans hlayout

lemma place_frames (depth : Nat) (id : RecordId) : Upholds (Layout.Frames s) (place depth id) := by
  induction depth generalizing id with
  | zero => exact .throw _
  | succ depth ih =>
    refine (isPlaced_frames id).bind fun isPlaced => ?_
    split
    · exact .throw _
    refine Upholds.bind (.modify ?_) fun _ => ?_
    · exact fun _ hlayout => hlayout
    refine (requireFunction_frames id).bind fun f => ?_
    refine Upholds.bind (modifyFunction_frames id ?_) fun _ => ?_
    · exact fun _ _ => rfl
    refine Upholds.bind (.forM fun i _ => ?_) fun _ => modifyFunction_frames id fun _ _ => rfl
    refine (advance_frames i.size).bind fun _ => ?_
    cases i.spawned? with
    | none => exact .pure ()
    | some callee =>
      refine (isPlaced_frames callee).bind fun isPlaced => ?_
      split
      · exact .pure ()
      · refine (requireFunction_frames callee).bind fun _ => ?_
        refine Upholds.bind (modifyFunction_frames callee ?_) fun _ => ih callee
        exact fun _ _ => rfl

lemma placeOnce_frames (id : RecordId) : Upholds (Layout.Frames s) (placeOnce id) := by
  refine (isPlaced_frames id).bind fun isPlaced => ?_
  split
  · exact .pure ()
  · exact Upholds.get_bind fun _ _ => place_frames _ id

/-- The table may have been looked up in an earlier layout of the same script. -/
lemma placeTable_frames {earlier : Script} (h : earlier.cleared = s.cleared)
    {entry : TableRef × Table} (hentry : entry ∈ earlier.allTables) :
    Upholds (Layout.Frames s) (placeTable entry.1 entry.2) := by
  unfold placeTable
  split
  case isFalse => exact .throw _
  refine Upholds.get_bind fun layout hlayout => ?_
  refine Upholds.bind (.set ?_) fun _ => advance_frames _
  refine (Script.cleared_replaceTable fun other hother href => ?_).trans hlayout
  have hid : entry.2.id = entry.1.id := Script.id_of_table? (Script.mem_allTables.mp hentry)
  exact Script.cleared_table_eq (hlayout.trans h.symm) hentry hother (href.trans (by rw [hid]))

theorem script_frames : Upholds (Layout.Frames s) script := by
  refine Upholds.get_bind fun first _ => ?_
  refine Upholds.bind (.forM fun f _ => placeOnce_frames f.id) fun _ => ?_
  refine Upholds.get_bind fun second _ => ?_
  refine Upholds.bind (.forM fun f _ => ?_) fun _ => Upholds.get_bind fun third hthird =>
    .forM fun entry hentry => placeTable_frames hthird hentry
  refine (isPlaced_frames f.id).bind fun isPlaced => ?_
  split
  · exact .pure ()
  · refine Upholds.bind (modifyFunction_frames f.id ?_) fun _ => placeOnce_frames f.id
    exact fun _ _ => rfl

end LayOut

lemma Function.untargeted_of_fix {options : Options} {f fixed : Function} {ends : List UInt32}
    (h : f.fix options ends = .ok fixed) : fixed.untargeted = f.untargeted := by
  by_cases hlength : ends.length = f.code.length
  · exact ((f.fix_yields options hlength).of_ok h).1
  · rw [fix, if_pos hlength] at h
    cases h

namespace Script

variable {s : Script} {options : Options}

/-- The script is `s` but for what building finds out. -/
def Frames (s t : Script) : Prop := t.cleared = s.cleared

lemma assignOffsets_frames : Upholds (Frames s) assignOffsets := by
  intro t ht
  have hlayout := LayOut.script_frames (s := s) ⟨t, 0, []⟩ ht
  unfold assignOffsets
  cases hrun : LayOut.script ⟨t, 0, []⟩ with
  | ok _ layout | error _ layout =>
    rw [hrun] at hlayout
    exact hlayout

lemma fixFunction_frames (ends : Registry Ends) {earlier : Script}
    (h : earlier.cleared = s.cleared) {f : Function} (hf : f ∈ earlier.functions.records) :
    Upholds (Frames s) (fixFunction ends options f) := by
  unfold fixFunction
  cases ends.get? f.id with
  | none => exact .pure ()
  | some found =>
    dsimp only
    cases hfix : f.fix options found.offsets with
    | error e => exact .throw e
    | ok fixed =>
      have hfixed := Function.untargeted_of_fix hfix
      have hid : fixed.untargeted.id = f.untargeted.id := by rw [hfixed]
      refine .modify fun t ht => (cleared_replace fun g hg hgid => ?_).trans ht
      exact (Function.cleared_of_untargeted hfixed).trans
        (cleared_function_eq (ht.trans h.symm) hf hg (hgid.trans hid))

lemma applyFixups_frames (ends : Registry Ends) : Upholds (Frames s) (applyFixups ends options) :=
  Upholds.get_bind fun _ ht => .forM fun _ hf => fixFunction_frames ends ht (List.mem_reverse.mp hf)

lemma settle_frames {α : Type} (x : Except Error α) : Upholds (Frames s) (settle x) := by
  cases x with
  | ok a => exact .pure a
  | error e => exact .throw e

/-- A build leaves everything of a script as it is but the places of functions and tables, the
counts of tables, which functions are inline, addresses and jump targets, whether it succeeds or at
whatever point it fails. In particular every instruction keeps its size. -/
theorem build_frames (options : Options) (s : Script) :
    (stateAfter (build options s)).cleared = s.cleared ∧
      (stateAfter (build options s)).functions.records.map Function.sizes =
        s.functions.records.map Function.sizes := by
  have hbuild : Upholds (Frames s) (build options) := by
    refine assignOffsets_frames.bind fun _ => Upholds.get_bind fun t _ => ?_
    refine (settle_frames _).bind fun first => (settle_frames _).bind fun emission => ?_
    exact (applyFixups_frames _).bind fun _ => Upholds.get_bind fun _ _ => settle_frames _
  have hcleared : (stateAfter (build options s)).cleared = s.cleared := hbuild s rfl
  refine ⟨hcleared, ?_⟩
  have hsizes := congrArg (fun t : Script => t.functions.records.map Function.sizes) hcleared
  simpa only [functions_cleared, Registry.records_map, List.map_map, Function.comp_def,
    Function.sizes_cleared] using hsizes

end Script

end ScriptContainer
