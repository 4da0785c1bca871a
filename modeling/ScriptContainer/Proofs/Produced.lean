import ScriptContainer.Proofs.BoundDocuments
import ScriptContainer.Proofs.FreeIds

/-!
# Scripts of containers and documents

A script that was parsed or imported is sound: what it refers to is among the records that were
declared before any reference was looked up. So it can be built, if there is room for its code region.
-/

namespace ScriptContainer

namespace Findings

variable {found : Findings} {s t : Script} {count : Nat} {gap : Placement × Function}
  {gaps : List (Placement × Function)}

lemma IsBound.filled_restsOn (h : found.IsBound s count) (hs : s.RestsOn s) :
    (found.filled s).RestsOn s := by
  have hkept (f : Function) : f.fill found.inlined found.bodies = { f with
      code := (f.fill found.inlined found.bodies).code
      isInline := (f.fill found.inlined found.bodies).isInline } := by
    unfold Function.fill
    split <;> rfl
  have hfunctions : (s.mapFunctions (Function.fill found.inlined found.bodies)
      (Function.id_fill found.inlined found.bodies)).RestsOn s := by
    apply hs.mapFunctions hkept
    intro f hf i hi
    unfold Function.fill at hi
    split at hi
    case h_1 entry hentry => exact (h.bodies entry (List.mem_of_find?_eq_some hentry) i hi).binds
    case h_2 => exact hs.code f hf i hi
  apply hfunctions.mapTables
  · intro owner t
    unfold Table.fill
    split <;> rfl
  · intro entry hentry
    have hold := hfunctions.tables entry hentry
    rw [Script.allTables_mapFunctions fun f => by rw [hkept f]] at hentry
    unfold Table.fill
    split
    case h_1 filling hfilling =>
      obtain ⟨t, ht, hencodes⟩ := h.tables filling (List.mem_of_find?_eq_some hfilling)
      have hheld := Script.mem_allTables.mp hentry
      have hkey : filling.1 = ⟨entry.1.owner, entry.2.id⟩ := by simpa using List.find?_some hfilling
      have href : filling.1 = entry.1 := by rw [hkey, Script.id_of_table? hheld]
      rw [href] at ht
      obtain rfl := Option.some.inj (hheld.symm.trans ht)
      exact hencodes
    case h_2 => exact hold

lemma addGap_restsOn (h : t.RestsOn s) (hfresh : gap.2.id ∉ t.functions.ids)
    (hgap : gap.2.IsLoose s) : (addGap t gap).RestsOn s := by
  have hincludes : (addGap t gap).Includes t :=
    Script.includes_of_functions fun _ _ hf => Registry.get?_insertAt_of_get? hfresh hf
  have hall : (addGap t gap).allTables = t.allTables := by
    unfold Script.allTables addGap
    dsimp only
    -- Nothing is taken out for the sake of the new function, which brings no tables.
    rw [Registry.records_insertAt_of_notMem hfresh, List.flatMap_append, List.flatMap_cons, hgap.tables]
    change _ ++ (_ ++ ([] ++ _)) = _
    rw [List.nil_append, ← List.flatMap_append, List.take_append_drop]
  have hrecords {f : Function} (hf : f ∈ (addGap t gap).functions.records) :
      f = gap.2 ∨ f ∈ t.functions.records := Registry.mem_of_mem_insertAt hf
  refine ⟨fun symbol hs => hincludes symbol (h.includes symbol hs), ?_, ?_, ?_, h.vars, ?_⟩
  · rw [Script.tableTypes, hall]
    exact h.types
  · intro f hf
    rcases hrecords hf with rfl | hf
    · exact fun i hi => (hgap.code i hi).binds
    · exact h.code f hf
  · rw [hall]
    exact h.tables
  · intro f hf
    rcases hrecords hf with rfl | hf
    · -- It owns no variable whose value could be of another type.
      rw [hgap.vars]
      exact List.forall_mem_nil _
    · exact h.owned f hf

lemma addGaps_restsOn (h : t.RestsOn s) (hgaps : ∀ gap ∈ gaps, gap.2.IsLoose s)
    (hids : (t.functions.ids ++ gaps.map fun gap => gap.2.id).Nodup) :
    (gaps.foldl addGap t).RestsOn s := by
  induction gaps generalizing t with
  | nil => exact h
  | cons gap gaps ih =>
    rw [List.forall_mem_cons] at hgaps
    rw [List.map_cons] at hids
    have hfresh : gap.2.id ∉ t.functions.ids := fun hmem =>
      List.disjoint_of_nodup_append hids hmem List.mem_cons_self
    apply ih (addGap_restsOn h hfresh hgaps.1) hgaps.2
    have hperm : (addGap t gap).functions.ids.Perm (gap.2.id :: t.functions.ids) :=
      Registry.perm_insertAt_of_notMem hfresh
    exact ((hperm.append_right _).trans List.perm_middle.symm).nodup_iff.mpr hids

end Findings

namespace Script

variable {s : Script}

lemma Accounted.restsOn {bytes : Array UInt8} {declared : Script} {base : Nat} {count : UInt32}
    {found : Findings} (h : s.Accounted bytes declared base count found) (hleaves : s.LeavesIds) :
    s.RestsOn declared := by
  have hfilled := h.isBound.filled_restsOn h.isBlank.restsOn
  have hids : ((found.filled declared).functions.ids ++ found.gaps.map fun gap => gap.2.id).Nodup := by
    rw [found.ids_filled, h.isBound.ids]
    exact nodup_ids_append_gapIds (h.leavesIds_iff.mp hleaves) h.length_gaps_lt.le
  have hgaps := Findings.addGaps_restsOn hfilled h.isBound.gaps hids
  rw [h.result, h.accounts.apply_eq]
  exact { hgaps with }

/-- The script was parsed, and its functions without declaration have ids of their own, or it was
imported. -/
inductive Produced : Script → Prop where
  | parsed {options : Options} {bytes : Array UInt8} {s : Script} (h : parse options bytes = .ok s)
      (hids : s.LeavesIds) : Produced s
  | imported {d : Document} {s : Script} (h : d.toScript = .ok s) : Produced s

/-- Nothing stands in the way of building a script that was parsed or imported, as long as there is
room for its code region. -/
theorem Produced.builds (h : s.Produced) :
    s.Sound ∧ (s.regionSize < UInt32.size → ∃ built after, build .lenient s = .ok built after) := by
  have hsound : s.Sound := by
    cases h with
    | parsed h hids =>
      obtain ⟨declared, base, count, found, haccounted⟩ := exists_accounted h
      exact (haccounted.restsOn hids).sound
    | imported h =>
      obtain ⟨records, -, hrests⟩ := Document.toScript_restsOn h
      exact hrests.sound
  exact ⟨hsound, fun hroom => (hsound.buildable hroom).exists_build⟩

/-- The container that was parsed and the document that was imported give scripts that are built. -/
theorem lodge_and_errand_build :
    (∃ s, parse .lenient lodge = .ok s ∧ s.Sound ∧ ∃ built after, build .lenient s = .ok built after) ∧
      errandDocument.toScript = .ok errand ∧ errand.Sound ∧
      ∃ built after, build .lenient errand = .ok built after := by
  constructor
  · obtain ⟨s, hparse, hfunctions, hsize⟩ := lodge_parses
    have hids : s.LeavesIds := by
      intro f hf
      have hid : (f.id, f.isInline) ∈ [((1 : RecordId), false), (3, false), (2, true)] := by
        rw [← hfunctions]
        exact List.mem_map_of_mem (List.mem_of_mem_filter hf)
      have hsmall : ∀ entry ∈ [((1 : RecordId), false), (3, false), (2, true)], entry.1.toNat ≤ 3 := by
        simp
      have hle : f.id.toNat ≤ 3 := hsmall _ hid
      have hall : s.functions.records.length = 3 := by
        have := congrArg List.length hfunctions
        rwa [List.length_map] at this
      have hundeclared : s.undeclared.length ≤ 3 := hall ▸ List.length_filter_le _ _
      change _ < 4294967296
      omega
    obtain ⟨hsound, hbuild⟩ := Produced.builds (.parsed hparse hids)
    exact ⟨s, hparse, hsound, hbuild (by rw [hsize]; decide)⟩
  · obtain ⟨hsound, hbuild⟩ := Produced.builds (.imported errandDocument_toScript)
    exact ⟨errandDocument_toScript, hsound, hbuild (by decide +kernel)⟩

end Script

end ScriptContainer
