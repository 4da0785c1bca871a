import ScriptContainer.Proofs.Keeping

/-!
# Filling in what was found

Before the code region is read, functions have no code and tables have no values. Filling in the
code and the values of all of them gives back the script.
-/

namespace ScriptContainer

/-- The function with the code that was found for it. -/
def Function.fill (inlined : List RecordId) (bodies : List (RecordId × Body .bound)) (f : Function) :
    Function :=
  match bodies.find? fun entry => entry.1 == f.id with
  | some entry => { f with code := entry.2, isInline := inlined.contains f.id }
  | none => f

/-- The table with the values that were found for it. -/
def Table.fill (found : List (TableRef × TableValues VarRef)) (owner : Owner) (t : Table) : Table :=
  match found.find? fun entry => entry.1 == ⟨owner, t.id⟩ with
  | some entry => { t with values := entry.2 }
  | none => t

section Fill

variable {inlined : List RecordId} {id : RecordId} {code : Body .bound}
  {bodies : List (RecordId × Body .bound)} {found : List (TableRef × TableValues VarRef)}

lemma Function.id_fill (inlined : List RecordId) (bodies : List (RecordId × Body .bound))
    (f : Function) : (f.fill inlined bodies).id = f.id := by
  unfold fill
  split <;> rfl

lemma Function.fill_of_notMem {f : Function} (h : f.id ∉ bodies.map Prod.fst) :
    f.fill inlined bodies = f := by
  have hnone : bodies.find? (fun entry => entry.1 == f.id) = none := by
    rw [List.find?_eq_none]
    intro entry hentry he
    exact h (List.mem_map.mpr ⟨entry, hentry, beq_iff_eq.mp he⟩)
  rw [fill, hnone]

lemma Function.fill_cons (f : Function) :
    f.fill inlined ((id, code) :: bodies) =
      if f.id = id then { f with code, isInline := inlined.contains id }
      else f.fill inlined bodies := by
  by_cases h : f.id = id
  · rw [if_pos h, fill, List.find?_cons_of_pos (by simp [h]), h]
  · rw [if_neg h, fill, List.find?_cons_of_neg (by simpa using fun he => h he.symm)]
    rfl

lemma Function.fill_of_mem (hn : (bodies.map Prod.fst).Nodup) {f : Function}
    (h : (f.id, code) ∈ bodies) :
    f.fill inlined bodies = { f with code, isInline := inlined.contains f.id } := by
  induction bodies with
  | nil => cases h
  | cons entry bodies ih =>
    obtain ⟨id, other⟩ := entry
    rw [List.map_cons, List.nodup_cons] at hn
    rw [fill_cons]
    rcases List.mem_cons.mp h with he | h
    · obtain ⟨rfl, rfl⟩ := Prod.mk.inj he
      rw [if_pos rfl]
    · rw [if_neg fun he => hn.1 (List.mem_map.mpr ⟨_, h, he⟩), ih hn.2 h]

lemma Table.id_fill (found : List (TableRef × TableValues VarRef)) (owner : Owner) (t : Table) :
    (t.fill found owner).id = t.id := by
  unfold fill
  split <;> rfl

lemma Table.fill_of_notMem {owner : Owner} {t : Table}
    (h : (⟨owner, t.id⟩ : TableRef) ∉ found.map Prod.fst) : t.fill found owner = t := by
  have hnone : found.find? (fun entry => entry.1 == (⟨owner, t.id⟩ : TableRef)) = none := by
    rw [List.find?_eq_none]
    intro entry hentry he
    exact h (List.mem_map.mpr ⟨entry, hentry, beq_iff_eq.mp he⟩)
  rw [fill, hnone]

lemma Table.fill_cons (ref : TableRef) (values : TableValues VarRef) (owner : Owner) (t : Table) :
    t.fill ((ref, values) :: found) owner =
      if (⟨owner, t.id⟩ : TableRef) = ref then { t with values } else t.fill found owner := by
  by_cases h : (⟨owner, t.id⟩ : TableRef) = ref
  · rw [if_pos h, fill, List.find?_cons_of_pos (by simp [h])]
  · rw [if_neg h, fill, List.find?_cons_of_neg (by simpa using fun he => h he.symm)]
    rfl

lemma Table.fill_of_mem (hn : (found.map Prod.fst).Nodup) {owner : Owner} {t : Table}
    {values : TableValues VarRef} (h : ((⟨owner, t.id⟩ : TableRef), values) ∈ found) :
    t.fill found owner = { t with values } := by
  induction found with
  | nil => cases h
  | cons entry found ih =>
    obtain ⟨ref, other⟩ := entry
    rw [List.map_cons, List.nodup_cons] at hn
    rw [fill_cons]
    rcases List.mem_cons.mp h with he | h
    · obtain ⟨rfl, rfl⟩ := Prod.mk.inj he
      rw [if_pos rfl]
    · rw [if_neg fun he => hn.1 (List.mem_map.mpr ⟨_, h, he⟩), ih hn.2 h]

end Fill

namespace Script

variable {s : Script}

lemma foldl_modifyFunction (inlined : List RecordId) {bodies : List (RecordId × Body .bound)}
    (hn : (bodies.map Prod.fst).Nodup) (s : Script) :
    bodies.foldl (fun s entry => s.modifyFunction entry.1 fun f =>
        { f with code := entry.2, isInline := inlined.contains entry.1 }) s =
      s.mapFunctions (Function.fill inlined bodies) (Function.id_fill inlined bodies) := by
  induction bodies generalizing s with
  | nil => exact (mapFunctions_eq_self fun f _ => rfl).symm
  | cons entry bodies ih =>
    obtain ⟨id, code⟩ := entry
    rw [List.map_cons, List.nodup_cons] at hn
    rw [List.foldl_cons, ih hn.2, modifyFunction_eq]
    case hf => exact fun _ => rfl
    rw [mapFunctions_mapFunctions]
    refine mapFunctions_congr fun f _ => ?_
    rw [Function.fill_cons]
    by_cases hid : f.id = id
    · have hlater : f.id ∉ bodies.map Prod.fst := by
        rw [hid]
        exact hn.1
      rw [if_pos hid, if_pos hid]
      exact Function.fill_of_notMem hlater
    · rw [if_neg hid, if_neg hid]

/-- Fill in the values of a table, if there is such a table. -/
def fillTable (s : Script) (ref : TableRef) (values : TableValues VarRef) : Script :=
  match s.table? ref with
  | some t => s.replaceTable ref.owner { t with values }
  | none => s

lemma fillTable_eq (s : Script) (ref : TableRef) (values : TableValues VarRef) :
    s.fillTable ref values = s.mapTables (fun owner t => t.fill [(ref, values)] owner)
      fun owner t => Table.id_fill [(ref, values)] owner t := by
  have hother (owner : Owner) (t : Table) (hne : (⟨owner, t.id⟩ : TableRef) ≠ ref) :
      t.fill [(ref, values)] owner = t := by
    refine Table.fill_of_notMem ?_
    rwa [List.map_singleton, List.mem_singleton]
  unfold fillTable
  cases ht : s.table? ref with
  | none =>
    refine (mapTables_eq_self fun entry hentry => hother entry.1.owner entry.2 fun he => ?_).symm
    have hheld := mem_allTables.mp hentry
    rw [id_of_table? hheld] at he
    rw [show ref = entry.1 from he.symm, hheld] at ht
    cases ht
  | some t =>
    refine replaceTable_eq_mapTables ht rfl ?_ hother
    rw [Table.fill_cons, if_pos (by rw [id_of_table? ht])]

lemma foldl_fillTable {found : List (TableRef × TableValues VarRef)}
    (hn : (found.map Prod.fst).Nodup) (s : Script) :
    found.foldl (fun s entry => s.fillTable entry.1 entry.2) s =
      s.mapTables (fun owner t => t.fill found owner) fun owner t => Table.id_fill found owner t := by
  induction found generalizing s with
  | nil => exact (mapTables_eq_self fun _ _ => rfl).symm
  | cons entry found ih =>
    obtain ⟨ref, values⟩ := entry
    rw [List.map_cons, List.nodup_cons] at hn
    rw [List.foldl_cons, ih hn.2, fillTable_eq, mapTables_mapTables]
    refine mapTables_congr fun entry _ => ?_
    simp only [Table.fill_cons]
    by_cases he : (⟨entry.1.owner, entry.2.id⟩ : TableRef) = ref
    · have hlater : (⟨entry.1.owner, entry.2.id⟩ : TableRef) ∉ found.map Prod.fst := by
        rw [he]
        exact hn.1
      rw [if_pos he, if_pos he]
      exact Table.fill_of_notMem hlater
    · rw [if_neg he, if_neg he]
      rfl

/-- What is known of a script before its code region is read, with variables that may stand in
another order. -/
def bare (s : Script) (vars : Registry Variable) : Script where
  imports := s.imports
  functions := s.functions.map Function.bare Function.id_bare
  vars := vars
  tables := s.tables.map Table.emptied Table.id_emptied
  padding := { s.padding with code := [] }

end Script

namespace Registry

variable {α : Type} [Keyed α] {p : α → Bool}

lemma filter_insertAt (r : Registry α) (index : Nat) {x : α} (hx : p x = false) :
    (r.insertAt index x).records.filter p =
      (r.records.filter p).filter fun y => Keyed.id y != Keyed.id x := by
  rw [insertAt, List.filter_append, List.filter_cons_of_neg (by rw [hx]; exact Bool.false_ne_true),
    ← List.filter_append, List.take_append_drop, without, List.filter_comm]

end Registry

namespace Findings

/-- Add a function made of other code. -/
def addGap (s : Script) (gap : Placement × Function) : Script :=
  { s with functions := s.functions.insertAt (placeIn s.functions gap.1) gap.2 }

variable {gaps : List (Placement × Function)} {s : Script} {f : Function}

lemma mem_of_mem_addGaps (h : f ∈ (gaps.foldl addGap s).functions.records) :
    f ∈ s.functions.records ∨ f ∈ gaps.map Prod.snd := by
  induction gaps generalizing s with
  | nil => exact .inl h
  | cons gap gaps ih =>
    rw [List.map_cons, List.mem_cons]
    rcases ih h with h | h
    · rcases Registry.mem_of_mem_insertAt h with rfl | h
      · exact .inr (.inl rfl)
      · exact .inl h
    · exact .inr (.inr h)

lemma ids_addGaps
    (h : (s.functions.ids ++ gaps.map fun gap => gap.2.id).Nodup) :
    (gaps.foldl addGap s).functions.ids.Perm (s.functions.ids ++ gaps.map fun gap => gap.2.id) := by
  induction gaps generalizing s with
  | nil => rw [List.map_nil, List.append_nil, List.foldl_nil]
  | cons gap gaps ih =>
    rw [List.map_cons] at h ⊢
    have hfresh : gap.2.id ∉ s.functions.ids := fun hmem =>
      List.disjoint_of_nodup_append h hmem List.mem_cons_self
    have hids : (addGap s gap).functions.ids.Perm (gap.2.id :: s.functions.ids) :=
      Registry.perm_insertAt_of_notMem hfresh
    have hall := hids.append_right (gaps.map fun gap => gap.2.id)
    have hmiddle : (gap.2.id :: s.functions.ids ++ gaps.map fun gap => gap.2.id).Perm
        (s.functions.ids ++ gap.2.id :: gaps.map fun gap => gap.2.id) := List.perm_middle.symm
    rw [List.foldl_cons]
    exact (ih ((hall.trans hmiddle).nodup_iff.mpr h)).trans (hall.trans hmiddle)

lemma mem_addGaps_of_mem (hf : f ∈ s.functions.records) (hid : f.id ∉ gaps.map fun gap => gap.2.id) :
    f ∈ (gaps.foldl addGap s).functions.records := by
  induction gaps generalizing s with
  | nil => exact hf
  | cons gap gaps ih =>
    rw [List.map_cons, List.mem_cons, not_or] at hid
    exact ih (Registry.mem_insertAt_iff.mpr (.inr ⟨hf, hid.1⟩)) hid.2

lemma mem_addGaps_of_mem_gaps (hn : (gaps.map fun gap => gap.2.id).Nodup)
    {gap : Placement × Function} (hgap : gap ∈ gaps) :
    gap.2 ∈ (gaps.foldl addGap s).functions.records := by
  induction gaps generalizing s with
  | nil => cases hgap
  | cons first gaps ih =>
    rw [List.map_cons, List.nodup_cons] at hn
    rw [List.foldl_cons]
    rcases List.mem_cons.mp hgap with rfl | hgap
    · exact mem_addGaps_of_mem (Registry.mem_insertAt_iff.mpr (.inl rfl)) hn.1
    · exact ih hn.2 hgap

/-- A function without declaration displaces the one that has its id, and no other one. -/
lemma declared_addGaps (h : ∀ gap ∈ gaps, gap.2.isDeclared = false) :
    (gaps.foldl addGap s).declared =
      s.declared.filter fun f => f.id ∉ gaps.map fun gap => gap.2.id := by
  induction gaps generalizing s with
  | nil => simp
  | cons gap gaps ih =>
    obtain ⟨hgap, hgaps⟩ := List.forall_mem_cons.mp h
    have hstep : (addGap s gap).declared = s.declared.filter fun f => f.id != gap.2.id :=
      Registry.filter_insertAt s.functions _ hgap
    rw [List.foldl_cons, ih hgaps, hstep, List.filter_filter]
    refine List.filter_congr fun f _ => ?_
    rw [List.map_cons, Bool.eq_iff_iff]
    simp only [List.mem_cons, decide_eq_true_eq, Bool.and_eq_true, bne_iff_ne]
    tauto

/-- The declared functions with their code, and with the values of their tables. -/
def filled (found : Findings) (s : Script) : Script :=
  (s.mapFunctions (Function.fill found.inlined found.bodies)
    (Function.id_fill found.inlined found.bodies)).mapTables
    (fun owner t => t.fill found.tables owner) fun owner t => Table.id_fill found.tables owner t

variable {found : Findings}

lemma ids_filled (found : Findings) (s : Script) : (found.filled s).functions.ids = s.functions.ids := by
  rw [filled, Script.mapTables, Registry.ids_map, Script.functions_mapFunctions, Registry.ids_map]

lemma isDeclared_of_mem_filled (h : ∀ f ∈ s.functions.records, f.isDeclared = true)
    (hf : f ∈ (found.filled s).functions.records) : f.isDeclared = true := by
  obtain ⟨g, hg, rfl⟩ := List.mem_map.mp hf
  obtain ⟨g, hg', rfl⟩ := List.mem_map.mp hg
  have hfill : (g.fill found.inlined found.bodies).isDeclared = g.isDeclared := by
    unfold Function.fill
    split <;> rfl
  exact hfill.trans (h g hg')

lemma apply_of_nodup (hbodies : (found.bodies.map Prod.fst).Nodup)
    (htables : (found.tables.map Prod.fst).Nodup) :
    found.apply s = { found.gaps.foldl addGap (found.filled s) with
      padding := { (found.gaps.foldl addGap (found.filled s)).padding with code := found.trailing } } := by
  unfold filled
  rw [← Script.foldl_fillTable htables, ← Script.foldl_modifyFunction found.inlined hbodies]
  rfl

lemma foldl_addGap (gaps : List (Placement × Function)) (s : Script) :
    gaps.foldl addGap s = { s with functions := (gaps.foldl addGap s).functions } := by
  induction gaps generalizing s with
  | nil => rfl
  | cons gap gaps ih =>
    rw [List.foldl_cons, ih]
    rfl

lemma addGaps_congr {t : Script} (h : s.functions = t.functions) :
    (gaps.foldl addGap s).functions = (gaps.foldl addGap t).functions := by
  induction gaps generalizing s t with
  | nil => exact h
  | cons gap gaps ih => exact ih (by rw [addGap, addGap, h])

lemma perm_undeclared_addGaps (hs : ∀ f ∈ s.functions.records, f.isDeclared = true)
    (hgaps : ∀ gap ∈ gaps, gap.2.isDeclared = false) (hn : (gaps.map fun gap => gap.2.id).Nodup) :
    ((gaps.foldl addGap s).functions.records.filter fun f => !f.isDeclared).Perm
      (gaps.map Prod.snd) := by
  have hids := hn
  rw [show (fun gap : Placement × Function => gap.2.id) = Function.id ∘ Prod.snd from rfl,
    ← List.map_map] at hids
  refine (List.perm_ext_iff_of_nodup ((gaps.foldl addGap s).functions.nodup_records.filter _)
    hids.of_map).mpr fun f => ?_
  rw [List.mem_filter]
  constructor
  · rintro ⟨hf, hundeclared⟩
    rcases mem_of_mem_addGaps hf with hf | hf
    · rw [hs f hf] at hundeclared
      cases hundeclared
    · exact hf
  · intro hf
    obtain ⟨gap, hgap, rfl⟩ := List.mem_map.mp hf
    refine ⟨mem_addGaps_of_mem_gaps hn hgap, ?_⟩
    rw [hgaps gap hgap]
    rfl

end Findings

/-- The code and the values of the whole script have been found. -/
structure Findings.Complete (found : Findings) (s : Script) : Prop where
  bodies : ∀ f ∈ s.functions.records, (f.id, f.code) ∈ found.bodies
  once : (found.bodies.map Prod.fst).Nodup
  inlined : ∀ f ∈ s.functions.records, found.inlined.contains f.id = f.isInline
  tables : found.tables = s.allTables.map fun entry => (entry.1, entry.2.values)

namespace Findings.Complete

variable {found : Findings} {s : Script} (h : found.Complete s)
include h

lemma nodup_tables : (found.tables.map Prod.fst).Nodup := by
  rw [h.tables, List.map_map]
  exact s.nodup_allTables

lemma fill_emptied {ref : TableRef} {t : Table} (ht : (ref, t) ∈ s.allTables) :
    t.emptied.fill found.tables ref.owner = t := by
  have hid : t.id = ref.id := Script.id_of_table? (Script.mem_allTables.mp ht)
  have hmem : ((⟨ref.owner, t.emptied.id⟩ : TableRef), t.values) ∈ found.tables := by
    rw [h.tables, show t.emptied.id = ref.id from hid]
    exact List.mem_map_of_mem (f := fun entry : TableRef × Table => (entry.1, entry.2.values)) ht
  rw [Table.fill_of_mem h.nodup_tables hmem]
  rfl

lemma fill_bare {f : Function} (hf : f ∈ s.functions.records) (hdeclared : f.isDeclared) :
    let g := f.bare.fill found.inlined found.bodies
    { g with
      tables := g.tables.map (fun t => t.fill found.tables (.function g.id))
        (Table.id_fill found.tables (.function g.id)) } = f := by
  have hmem : (f.bare.id, f.code) ∈ found.bodies := h.bodies f hf
  have hinline : found.inlined.contains f.bare.id = f.isInline := h.inlined f hf
  have htables : (f.tables.map Table.emptied Table.id_emptied).map
      (fun t => t.fill found.tables (.function f.id)) (Table.id_fill found.tables (.function f.id)) =
      f.tables := by
    rw [Registry.map_map]
    refine Registry.map_eq_self fun t ht => ?_
    have hmem : ((⟨.function f.id, t.id⟩ : TableRef), t) ∈ s.allTables :=
      List.mem_append_right _ (List.mem_flatMap.mpr ⟨f, hf, List.mem_map_of_mem ht⟩)
    exact h.fill_emptied hmem
  have hcode : f.bare.fill found.inlined found.bodies =
      { f with tables := f.tables.map Table.emptied Table.id_emptied } := by
    rw [Function.fill_of_mem h.once hmem, hinline]
    unfold Function.bare
    rw [← hdeclared]
  rw [hcode]
  dsimp only
  rw [htables]

lemma filled_bare (hdeclared : ∀ f ∈ s.functions.records, f.isDeclared) (vars : Registry Variable) :
    found.filled (s.bare vars) = { s with vars, padding := { s.padding with code := [] } } := by
  have hfunctions : (found.filled (s.bare vars)).functions = s.functions := by
    simp only [filled, Script.mapTables, Script.mapFunctions, Script.bare, Registry.map_map]
    exact Registry.map_eq_self fun f hf => h.fill_bare hf (hdeclared f hf)
  have hvalues : (found.filled (s.bare vars)).tables = s.tables := by
    simp only [filled, Script.mapTables, Script.mapFunctions, Script.bare, Registry.map_map]
    refine Registry.map_eq_self fun t ht => ?_
    have hmem : ((⟨.script, t.id⟩ : TableRef), t) ∈ s.allTables :=
      List.mem_append_left _ (List.mem_map_of_mem ht)
    exact h.fill_emptied hmem
  rw [← hfunctions, ← hvalues]
  rfl

/-- The script with what was found is the script with the functions made of other code and with the
words that were left. -/
theorem apply_bare (hdeclared : ∀ f ∈ s.functions.records, f.isDeclared) (vars : Registry Variable) :
    found.apply (s.bare vars) =
      { s with
        functions := (found.gaps.foldl addGap s).functions
        vars
        padding := { s.padding with code := found.trailing } } := by
  let blank : Script := { s with vars, padding := { s.padding with code := [] } }
  have hsame : (found.gaps.foldl addGap blank).functions = (found.gaps.foldl addGap s).functions :=
    addGaps_congr rfl
  rw [apply_of_nodup h.once h.nodup_tables, h.filled_bare hdeclared, foldl_addGap]
  change { blank with functions := (found.gaps.foldl addGap blank).functions, padding := _ } = _
  rw [hsame]

end Findings.Complete

end ScriptContainer
