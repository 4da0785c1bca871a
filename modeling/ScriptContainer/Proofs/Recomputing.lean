import ScriptContainer.Proofs.BlockEnds
import ScriptContainer.Proofs.OnePass
import ScriptContainer.Proofs.Relaying

/-!
# Places that are found anew

Building finds all places anew: where functions and tables stand, how many elements a table has,
where instructions jump to and where labels lead. What a script said of them before is not looked
at, if every block has an end of its own and every label a label instruction.
-/

namespace ScriptContainer

/-- The table without its place and the count of its elements. -/
def Table.unplaced (t : Table) : Table := { t with length := 0, start := 0 }

lemma Table.id_unplaced (t : Table) : Keyed.id t.unplaced = Keyed.id t := rfl

/-- The function without places, with all targets and addresses zero. -/
def Function.unplaced (f : Function) : Function :=
  { f.untargeted with
    codeStart := 0, codeEnd := 0, tables := f.tables.map Table.unplaced Table.id_unplaced }

lemma Function.id_unplaced (f : Function) : f.unplaced.id = f.id := rfl

lemma Function.retains_unplaced (f : Function) : f.Retains f.unplaced := by
  refine ⟨?_, rfl, rfl, rfl, ?_, ?_, ?_⟩
  · simp only [outline, unplaced, untargeted, unaddressedLabels, Registry.ids_map]
  · simp only [unplaced, Registry.records_map, List.map_map]
    rfl
  · simp only [unplaced, untargeted, unaddressedLabels, Registry.records_map, List.map_map]
    rfl
  · simp only [unplaced, untargeted, untargetedCode, List.map_map]
    refine List.map_congr_left fun i _ => ?_
    cases i <;> rfl

namespace Script

/-- The script without places, with all targets and addresses zero. -/
def unplaced (s : Script) : Script :=
  { s.mapFunctions Function.unplaced Function.id_unplaced with
    tables := s.tables.map Table.unplaced Table.id_unplaced }

variable {s t laid laid' : Script} {roots roots' : List Root} {stop stop' : Nat}

lemma functions_unplaced (s : Script) :
    s.unplaced.functions = s.functions.map Function.unplaced Function.id_unplaced := rfl

lemma allTables_unplaced (s : Script) :
    s.unplaced.allTables = s.allTables.map fun entry => (entry.1, entry.2.unplaced) := by
  simp only [allTables, unplaced, functions_mapFunctions, Function.unplaced, Registry.records_map,
    List.map_append, List.map_map, List.flatMap_map, List.map_flatMap]
  rfl

lemma retains_unplaced (s : Script) : s.Retains s.unplaced := by
  refine ⟨rfl, rfl, by simp only [unplaced, Registry.ids_map], ?_, ?_⟩
  · rw [functions_unplaced, Registry.records_map, List.forall₂_map_right_iff]
    exact List.forall₂_same.mpr fun f _ => f.retains_unplaced
  · rw [allTables_unplaced, List.forall₂_map_right_iff]
    exact List.forall₂_same.mpr fun entry _ => ⟨rfl, rfl, rfl, rfl⟩

lemma Retains.of_unplaced (h : t.unplaced = s.unplaced) : s.Retains t :=
  s.retains_unplaced.trans (h ▸ t.retains_unplaced.symm)

lemma sameBodies_of_unplaced (h : t.unplaced = s.unplaced) : SameBodies s.body? t.body? := by
  intro id code hcode
  obtain ⟨f, hf, rfl⟩ := Option.map_eq_some_iff.mp hcode
  have hrel := (Retains.of_unplaced h).get? id
  rw [hf] at hrel
  cases hg : t.functions.get? id with
  | none => rw [hg] at hrel; cases hrel
  | some g =>
    rw [hg] at hrel
    cases hrel with
    | some hfg => exact ⟨g.code, by rw [body?, hg, Option.map_some], hfg.code⟩

lemma map_id_layoutOrder_unplaced (s : Script) :
    s.unplaced.layoutOrder.map Function.id = s.layoutOrder.map Function.id := by
  simp only [layoutOrder, functions_unplaced, Registry.records_map, ← List.map_reverse,
    List.filter_map, List.map_append, List.map_map]
  rfl

end Script

section Settle

lemma Table.settleIn_unplaced {starts : List (TableRef × Nat)} {owner : Owner} {t : Table}
    (h : ⟨owner, t.id⟩ ∈ starts.map Prod.fst) :
    t.unplaced.settleIn starts owner = t.settleIn starts owner := by
  induction starts with
  | nil => cases h
  | cons entry starts ih =>
    obtain ⟨ref, start⟩ := entry
    rw [settleIn_cons, settleIn_cons]
    by_cases hid : ref = ⟨owner, t.id⟩
    · rw [if_pos hid, if_pos (show ref = ⟨owner, t.unplaced.id⟩ from hid)]
      rfl
    · rw [if_neg hid, if_neg (show ref ≠ ⟨owner, t.unplaced.id⟩ from hid)]
      exact ih ((List.mem_cons.mp h).resolve_left fun he => hid he.symm)

lemma Function.settle_map {plots : List Plot} {g : Plot → Plot} (hg : ∀ p ∈ plots,
      (g p).id = p.id ∧ (g p).start = p.start ∧ (g p).stop = p.stop ∧
        (g p).isInline = p.isInline) (f : Function) :
    f.settle (plots.map g) = f.settle plots := by
  induction plots with
  | nil => rfl
  | cons p plots ih =>
    obtain ⟨⟨hid, hstart, hstop, hinline⟩, hplots⟩ := List.forall_mem_cons.mp hg
    rw [List.map_cons, settle_cons, settle_cons, hid, hstart, hstop, hinline, ih hplots]

lemma Function.settle_unplaced {plots : List Plot} {starts : List (TableRef × Nat)} {f : Function}
    (hplots : f.id ∈ plots.map Plot.id)
    (hstarts : ∀ t ∈ f.tables.records, ⟨.function f.id, t.id⟩ ∈ starts.map Prod.fst) :
    (f.unplaced.settle plots).settleTables starts =
      ((f.settle plots).settleTables starts).untargeted := by
  have htables : (f.tables.map Table.unplaced Table.id_unplaced).map
      (Table.settleIn starts (.function f.id)) (Table.id_settleIn starts (.function f.id)) =
        f.tables.map (Table.settleIn starts (.function f.id))
          (Table.id_settleIn starts (.function f.id)) := by
    rw [Registry.map_map]
    exact Registry.map_congr fun t ht => Table.settleIn_unplaced (hstarts t ht)
  have hsome : (plots.find? fun p => p.id == f.id).isSome := by
    obtain ⟨p, hp, hid⟩ := List.mem_map.mp hplots
    rw [List.find?_isSome]
    exact ⟨p, hp, beq_iff_eq.mpr hid⟩
  obtain ⟨p, hp⟩ := Option.isSome_iff_exists.mp hsome
  have hplaced (g : Function) (hg : g.id = f.id) : g.settle plots =
      { g with
        codeStart := UInt32.ofNat p.start, codeEnd := UInt32.ofNat p.stop,
        isInline := p.isInline } := by
    rw [settle, hg, hp]
  rw [hplaced f rfl, hplaced f.unplaced f.id_unplaced]
  exact congrArg (fun tables => ({ f.untargeted with
    codeStart := UInt32.ofNat p.start, codeEnd := UInt32.ofNat p.stop, isInline := p.isInline,
    tables } : Function)) htables

end Settle

namespace Script

variable {s t laid laid' : Script} {roots roots' : List Root} {stop stop' : Nat}

/-- What is laid out depends on what has no place. -/
lemma LaidOut.untargeted_eq (h : s.LaidOut roots stop laid) :
    laid.untargeted = (s.unplaced.settleFunctions (forestPlots 0 roots)).settleTables
      (tableStarts (forestSize roots) s.allTables) := by
  let plots := forestPlots 0 roots
  let starts := tableStarts (forestSize roots) s.allTables
  have hrefs {ref : TableRef} {t : Table} (ht : s.table? ref = some t) :
      ref ∈ starts.map Prod.fst := by
    rw [map_fst_tableStarts]
    exact List.mem_map_of_mem (mem_allTables.mpr ht)
  have htables : ((s.tables.map Table.unplaced Table.id_unplaced).map
      (Table.settleIn starts .script) (Table.id_settleIn starts .script)) =
        s.tables.map (Table.settleIn starts .script) (Table.id_settleIn starts .script) := by
    rw [Registry.map_map]
    exact Registry.map_congr fun t ht => Table.settleIn_unplaced (hrefs (s.tables.get?_of_mem ht))
  have hfunctions : ((s.functions.map Function.unplaced Function.id_unplaced).map
      (Function.settle plots) (Function.id_settle plots)).map
        (Function.settleTables starts) (Function.id_settleTables starts) =
      ((s.functions.map (Function.settle plots) (Function.id_settle plots)).map
        (Function.settleTables starts) (Function.id_settleTables starts)).map
          Function.untargeted Function.id_untargeted := by
    simp only [Registry.map_map]
    refine Registry.map_congr fun f hf => Function.settle_unplaced ?_ fun t ht => ?_
    · rw [map_id_forestPlots, h.perm_ids.mem_iff]
      exact List.mem_map_of_mem hf
    · have hheld : s.table? ⟨.function f.id, t.id⟩ = some t :=
        Option.bind_eq_some_iff.mpr ⟨f, s.functions.get?_of_mem hf, f.tables.get?_of_mem ht⟩
      exact hrefs hheld
  rw [h.script]
  exact congrArg₂ (fun functions tables => { s with functions, tables }) hfunctions.symm
    htables.symm

lemma tableStarts_unplaced (start : Nat) (entries : List (TableRef × Table)) :
    tableStarts start (entries.map fun entry => (entry.1, entry.2.unplaced)) =
      tableStarts start entries := by
  induction entries generalizing start with
  | nil => rfl
  | cons entry entries ih =>
    rw [List.map_cons, tableStarts, tableStarts]
    exact congrArg (_ :: ·) (ih _)

/-- A script that differs in places only is laid out in the same way. -/
theorem LaidOut.of_unplaced (h : s.LaidOut roots stop laid) (hsame : t.unplaced = s.unplaced) :
    ∃ laid', t.LaidOut (roots.map (Root.dress t.body?)) stop laid' ∧
      laid'.untargeted = laid.untargeted := by
  have hbodies := sameBodies_of_unplaced hsame
  have hfollows : Follows s.body? [] (fun _ => False) 0 _ roots := .of_grows h.grows 0
  obtain ⟨-, hsize, -, hplots⟩ := hfollows.dress hbodies
  have hstarts (start : Nat) : tableStarts start t.allTables = tableStarts start s.allTables := by
    rw [← tableStarts_unplaced, ← allTables_unplaced, hsame, allTables_unplaced,
      tableStarts_unplaced]
  have htables : tablesSize t.allTables = tablesSize s.allTables := by
    have hsizes := congrArg (fun s : Script => tablesSize s.allTables) hsame
    simp only [allTables_unplaced, tablesSize, List.map_map] at hsizes
    exact hsizes
  have hlaid' : t.LaidOut (roots.map (Root.dress t.body?)) stop
      ((t.settleFunctions (forestPlots 0 (roots.map (Root.dress t.body?)))).settleTables
        (tableStarts (forestSize (roots.map (Root.dress t.body?))) t.allTables)) := by
    refine ⟨?_, rfl, ?_, h.fits⟩
    · have horder : t.layoutOrder.map Function.id = s.layoutOrder.map Function.id := by
        rw [← map_id_layoutOrder_unplaced, hsame, map_id_layoutOrder_unplaced]
      rw [horder]
      exact h.grows.dress hbodies
    · rw [hsize, htables]
      exact h.length
  refine ⟨_, hlaid', ?_⟩
  rw [hlaid'.untargeted_eq, h.untargeted_eq, hsame, hsize, hstarts, hplots]
  have hsettle (f : Function) : f.settle ((forestPlots 0 roots).map (Plot.dress t.body?)) =
      f.settle (forestPlots 0 roots) := by
    refine Function.settle_map (g := Plot.dress t.body?) (fun p hp => ⟨rfl, rfl, ?_, rfl⟩) f
    obtain ⟨seen, hproper⟩ := exists_proper hfollows hp
    obtain ⟨code, hcode, hagree⟩ := hbodies p.id _ (h.grows.body?_eq hp)
    unfold Plot.dress
    rw [hcode]
    exact congrArg (p.start + ·) (hproper.dress hbodies hagree).2.1
  unfold settleFunctions
  rw [mapFunctions_congr fun f _ => hsettle f]

/-- Every function has an end for each block, and a label instruction for each label. -/
def Determined (s : Script) : Prop := ∀ f ∈ s.functions.records, f.Determined

instance (s : Script) : Decidable s.Determined :=
  inferInstanceAs (Decidable (∀ f ∈ s.functions.records, f.Determined))

lemma Determined.of_retains (h : s.Determined) (hretains : s.Retains t) : t.Determined := by
  intro g hg
  obtain ⟨f, hf, hfg⟩ := hretains.exists_source hg
  exact (h f hf).of_retains hfg

variable {options : Options} {built built' : Built} {after after' : Script}

lemma IsBuilt.eq_of_unplaced (h : s.IsBuilt options laid roots stop built after)
    (h' : t.IsBuilt options laid' roots' stop' built' after') (hsame : t.unplaced = s.unplaced)
    (hs : s.Determined) : built' = built ∧ after' = after := by
  obtain ⟨forest, hlaid⟩ := (assignOffsets_outcome s).of_ok h.offsets
  obtain ⟨forest', hlaid'⟩ := (assignOffsets_outcome t).of_ok h'.offsets
  obtain ⟨other, hother, hagree⟩ := hlaid.of_unplaced hsame
  obtain ⟨-, -, rfl⟩ := hother.unique hlaid'
  have hdetermined := hs.of_retains hlaid.retains
  -- The recorded ends do not depend on targets, so they agree before any target is compared.
  have hends : built'.ends = built.ends := by
    have hwritten := h'.stands.written_eq (h.stands.dress hagree).1
      ⟨h'.writable.code, h'.writable.tables⟩ (w := .empty) ⟨0, rfl⟩
    have hforest : (forestEnds 0 roots').foldl Registry.insert .empty =
        (forestEnds 0 (roots.map (Root.dress other.body?))).foldl Registry.insert .empty :=
      congrArg Emission.ends hwritten
    rw [h.ends_eq_written, h'.ends_eq_written, hforest,
      h.stands.follows.ends_dress (sameBodies_of_untargeted hagree)]
  have huntargeted : after'.untargeted = after.untargeted := by
    rw [h'.agrees, hagree, h.agrees]
  -- Both scripts agree but for targets and addresses; each function has got these from its ends.
  have hafter : after' = after := by
    refine eq_of_untargeted huntargeted fun g' hg' => ?_
    obtain ⟨found, hfound⟩ := h'.records hg'
    obtain ⟨f', hf', hfix'⟩ := h'.exists_fix hg' hfound.held
    obtain ⟨g, hg, -⟩ := exists_get?_of_untargeted huntargeted.symm
      (after'.functions.get?_of_mem hg')
    have hid : g.id = g'.id := Registry.id_of_get? hg
    have hheld : built.ends.get? g.id = some found := by
      rw [hid, ← hends]
      exact hfound.held
    obtain ⟨f, hf, hfix⟩ := h.exists_fix (Registry.mem_of_get? hg) hheld
    obtain ⟨f'', hf'', hff''⟩ := exists_get?_of_untargeted hagree (laid.functions.get?_of_mem hf)
    have hid' : f'.id = f.id := by
      rw [← Function.id_of_fix hfix', ← hid, Function.id_of_fix hfix]
    obtain rfl := Registry.eq_of_get? hf' hid' hf''
    rw [Function.fix_congr hff'' (hdetermined f hf) hfix hfix']
    exact Registry.mem_of_get? hg
  subst hafter
  refine ⟨?_, rfl⟩
  rw [h.built, h'.built]
  exact (h.standsAfter.container_eq h'.standsAfter
    ⟨h.writableAfter.code, h.writableAfter.tables⟩).symm

/-- A script whose blocks have ends of their own, and whose labels have instructions of their own,
is built in the same way whatever places it held before. -/
theorem build_eq_of_unplaced (hsame : t.unplaced = s.unplaced) (hs : s.Determined)
    (options : Options) (built : Built) (after : Script) :
    build options s = .ok built after ↔ build options t = .ok built after := by
  have hbuild {s t : Script} (hsame : t.unplaced = s.unplaced) (hs : s.Determined)
      (h : build options s = .ok built after) : build options t = .ok built after := by
    obtain ⟨laid, roots, stop, hbuilt⟩ := (build_outcome options s).of_ok h
    obtain ⟨built', after', h'⟩ :=
      ((Retains.of_unplaced hsame).buildable hbuilt.buildable).exists_build
    obtain ⟨laid', roots', stop', hbuilt'⟩ := (build_outcome options t).of_ok h'
    obtain ⟨rfl, rfl⟩ := hbuilt.eq_of_unplaced hbuilt' hsame hs
    exact h'
  exact ⟨hbuild hsame hs, hbuild hsame.symm (hs.of_retains (.of_unplaced hsame))⟩

/-- A function with blocks of all kinds and a label, and a table. All places in it are `place`. -/
def workshop (place : UInt32) : Script :=
  let tools : Table := ⟨3, some "tools", .byte, place, place, .bytes [1, 2, 3]⟩
  let choice : Variable := ⟨4, some "choice", .static, .int, 0, .int 1⟩
  let ref : VarRef := ⟨.script, 4⟩
  let code : Body .bound := [.if [.symbol (.variable ref)] place 0 0, .label, .else place,
    .switch ref place place, .case ref place, .case2 ref place, .endSwitch, .endIf,
    .doWhile (.var ref) place, .endDoWhile, .return]
  let run := { (Function.new 1).addLabel ⟨2, some "inside", place⟩ with
    code, codeStart := place, codeEnd := place }
  ((Script.new.addVariable choice).addTable tools).addFunction run

theorem workshop_rebuilt : ∃ built after, build .lenient (workshop 0) = .ok built after ∧
    build .lenient (workshop 77) = .ok built after := by
  have hsame : (workshop 77).unplaced = (workshop 0).unplaced := by cbv
  have hbuildable : (workshop 0).Buildable .lenient := by decide
  have hdetermined : (workshop 0).Determined := by decide
  obtain ⟨built, after, hbuild⟩ := hbuildable.exists_build
  exact ⟨built, after, hbuild,
    (build_eq_of_unplaced hsame hdetermined .lenient built after).mp hbuild⟩

end Script

end ScriptContainer
