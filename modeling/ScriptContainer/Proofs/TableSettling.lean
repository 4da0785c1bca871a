import ScriptContainer.Proofs.Settling

/-!
# Scripts whose tables have places

Tables get their offsets and the numbers of their elements after the functions. This file says what
a script is once the offsets of its tables are known.
-/

namespace ScriptContainer

namespace Table

/-- The bytes of the payload for the elements that the table holds. -/
def filledSize (t : Table) : Nat := 8 + alignUp (t.values.size * t.type.elementSize)

/-- The table with the number of its elements, at an offset. -/
def settle (start : Nat) (t : Table) : Table :=
  { t with length := UInt32.ofNat t.values.size, start := UInt32.ofNat start }

lemma le_filledSize (t : Table) : 8 + t.values.size ≤ t.filledSize := by
  unfold filledSize alignUp
  have : t.values.size ≤ t.values.size * t.type.elementSize := by
    cases t.type <;> simp only [ElementType.elementSize] <;> omega
  omega

lemma payloadSize_settle {t : Table} (start : Nat) (h : t.values.size < UInt32.size) :
    (t.settle start).payloadSize = t.filledSize := by
  simp [payloadSize, filledSize, settle, Nat.mod_eq_of_lt h]

end Table

/-- Where tables that follow each other start. -/
def tableStarts : Nat → List (TableRef × Table) → List (TableRef × Nat)
  | _, [] => []
  | start, (ref, t) :: rest => (ref, start) :: tableStarts (start + t.filledSize) rest

/-- The bytes of tables that follow each other. -/
def tablesSize (tables : List (TableRef × Table)) : Nat :=
  (tables.map fun entry => entry.2.filledSize).sum

@[simp] lemma tablesSize_cons (ref : TableRef) (t : Table) (rest : List (TableRef × Table)) :
    tablesSize ((ref, t) :: rest) = t.filledSize + tablesSize rest := by simp [tablesSize]

lemma map_fst_tableStarts (start : Nat) (tables : List (TableRef × Table)) :
    (tableStarts start tables).map Prod.fst = tables.map Prod.fst := by
  induction tables generalizing start with
  | nil => rfl
  | cons entry rest ih => simp [tableStarts, ih]

/-- A table with the offset that a list gives it. -/
def Table.settleIn (starts : List (TableRef × Nat)) (owner : Owner) (t : Table) : Table :=
  match starts.find? fun entry => entry.1 == ⟨owner, t.id⟩ with
  | some entry => t.settle entry.2
  | none => t

@[simp] lemma Table.id_settleIn (starts : List (TableRef × Nat)) (owner : Owner) (t : Table) :
    (t.settleIn starts owner).id = t.id := by
  unfold settleIn
  split <;> rfl

lemma Table.settleIn_of_notMem {starts : List (TableRef × Nat)} {owner : Owner} {t : Table}
    (h : ⟨owner, t.id⟩ ∉ starts.map Prod.fst) : t.settleIn starts owner = t := by
  have : starts.find? (fun entry => entry.1 == ⟨owner, t.id⟩) = none := by
    rw [List.find?_eq_none]
    rintro entry hentry he
    exact h (List.mem_map.mpr ⟨entry, hentry, by simpa using he⟩)
  rw [settleIn, this]

lemma Table.settleIn_cons (ref : TableRef) (start : Nat) (starts : List (TableRef × Nat))
    (owner : Owner) (t : Table) :
    t.settleIn ((ref, start) :: starts) owner =
      if ref = ⟨owner, t.id⟩ then t.settle start else t.settleIn starts owner := by
  by_cases h : ref = ⟨owner, t.id⟩ <;> simp [settleIn, h]

lemma Table.settleIn_append {ps qs : List (TableRef × Nat)} {owner : Owner}
    (hd : ∀ x ∈ ps.map Prod.fst, x ∉ qs.map Prod.fst) (t : Table) :
    (t.settleIn ps owner).settleIn qs owner = t.settleIn (ps ++ qs) owner := by
  induction ps with
  | nil => rfl
  | cons p ps ih =>
    rw [List.cons_append, settleIn_cons, settleIn_cons]
    split
    case isTrue h =>
      refine settleIn_of_notMem ?_
      rw [settle, ← h]
      exact hd p.1 (by simp)
    case isFalse h => exact ih fun x hx => hd x (List.mem_cons_of_mem _ hx)

/-- A function whose tables have the offsets that a list gives them. -/
def Function.settleTables (starts : List (TableRef × Nat)) (f : Function) : Function :=
  { f with
    tables := f.tables.map (Table.settleIn starts (.function f.id))
      (Table.id_settleIn starts (.function f.id)) }

@[simp] lemma Function.id_settleTables (starts : List (TableRef × Nat)) (f : Function) :
    (f.settleTables starts).id = f.id := rfl

namespace Script

lemma mem_allTables {s : Script} {ref : TableRef} {t : Table} :
    (ref, t) ∈ s.allTables ↔ s.table? ref = some t := by
  obtain ⟨owner, id⟩ := ref
  simp only [allTables, List.mem_append, List.mem_flatMap, List.mem_map, Prod.mk.injEq,
    TableRef.mk.injEq]
  cases owner with
  | script =>
    simp only [table?, Registry.get?_eq_some_iff]
    constructor
    · rintro (⟨t', ht, ⟨-, hid⟩, rfl⟩ | ⟨f, -, t', -, ⟨h, -⟩, -⟩)
      · exact ⟨ht, hid⟩
      · cases h
    · rintro ⟨ht, hid⟩
      exact .inl ⟨t, ht, ⟨trivial, hid⟩, rfl⟩
  | function fid =>
    simp only [table?, Option.bind_eq_some_iff, Registry.get?_eq_some_iff]
    constructor
    · rintro (⟨t', -, ⟨h, -⟩, -⟩ | ⟨f, hf, t', ht, ⟨hfid, hid⟩, rfl⟩)
      · cases h
      · exact ⟨f, ⟨hf, Owner.function.inj hfid⟩, ht, hid⟩
    · rintro ⟨f, ⟨hf, hfid⟩, ht, hid⟩
      exact .inr ⟨f, hf, t, ht, ⟨congrArg Owner.function hfid, hid⟩, rfl⟩

lemma id_of_table? {s : Script} {ref : TableRef} {t : Table} (h : s.table? ref = some t) :
    t.id = ref.id := by
  obtain ⟨owner, id⟩ := ref
  cases owner with
  | script => exact Registry.id_of_get? h
  | function fid =>
    obtain ⟨f, -, ht⟩ := Option.bind_eq_some_iff.mp h
    exact Registry.id_of_get? ht

lemma nodup_allTables (s : Script) : (s.allTables.map Prod.fst).Nodup := by
  have htables (owner : Owner) (r : Registry Table) :
      (r.records.map fun t => (⟨owner, t.id⟩ : TableRef)).Nodup := by
    have := r.nodup.map (f := fun id => (⟨owner, id⟩ : TableRef)) fun a b h => (TableRef.mk.inj h).2
    rwa [List.map_map] at this
  rw [allTables, List.map_append, List.map_map, List.map_flatMap, List.nodup_append]
  refine ⟨htables .script s.tables, ?_, ?_⟩
  · simp only [List.map_map]
    rw [List.nodup_flatMap]
    refine ⟨fun f _ => htables (.function f.id) f.tables, ?_⟩
    refine (List.pairwise_map.mp s.functions.nodup).imp fun {f g} hne => ?_
    intro ref hf hg
    obtain ⟨t, -, rfl⟩ := List.mem_map.mp hf
    obtain ⟨u, -, hu⟩ := List.mem_map.mp hg
    exact hne (Owner.function.inj (TableRef.mk.inj hu).1).symm
  · rintro a ha b hb rfl
    obtain ⟨t, -, rfl⟩ := List.mem_map.mp ha
    obtain ⟨f, -, hf⟩ := List.mem_flatMap.mp hb
    obtain ⟨e, he, hu⟩ := List.mem_map.mp hf
    obtain ⟨u, -, rfl⟩ := List.mem_map.mp he
    exact Owner.noConfusion (TableRef.mk.inj hu).1

/-- Change every table by a function that leaves ids alone. -/
def mapTables (s : Script) (g : Owner → Table → Table) (hg : ∀ owner t, (g owner t).id = t.id) :
    Script :=
  { s with
    tables := s.tables.map (g .script) (hg .script)
    functions := s.functions.map
      (fun f => { f with tables := f.tables.map (g (.function f.id)) (hg (.function f.id)) })
      fun _ => rfl }

section MapTables

variable {s : Script} {g h : Owner → Table → Table} {hg : ∀ owner t, (g owner t).id = t.id}
  {hh : ∀ owner t, (h owner t).id = t.id}

lemma mapTables_congr
    (he : ∀ entry ∈ s.allTables, g entry.1.owner entry.2 = h entry.1.owner entry.2) :
    s.mapTables g hg = s.mapTables h hh := by
  rw [allTables, List.forall_mem_append] at he
  unfold mapTables
  congr 1
  · refine Registry.map_congr fun f hf => ?_
    congr 1
    refine Registry.map_congr fun t ht => ?_
    exact he.2 _ (List.mem_flatMap.mpr ⟨f, hf, List.mem_map_of_mem ht⟩)
  · refine Registry.map_congr fun t ht => ?_
    exact he.1 _ (List.mem_map_of_mem ht)

lemma mapTables_eq_self (he : ∀ entry ∈ s.allTables, g entry.1.owner entry.2 = entry.2) :
    s.mapTables g hg = s := by
  have hself : s.mapTables (fun _ t => t) (fun _ _ => rfl) = s := by
    have htables (r : Registry Table) : r.map (fun t => t) (fun _ => rfl) = r :=
      Registry.map_eq_self fun _ _ => rfl
    unfold mapTables
    rw [htables, Registry.map_eq_self fun f _ => by rw [htables]]
  exact (mapTables_congr he).trans hself

lemma mapTables_mapTables :
    (s.mapTables g hg).mapTables h hh =
      s.mapTables (fun owner t => h owner (g owner t)) fun owner t => by rw [hh, hg] := by
  unfold mapTables
  simp only [Registry.map_map]

lemma allTables_mapTables :
    (s.mapTables g hg).allTables =
      s.allTables.map fun entry => (entry.1, g entry.1.owner entry.2) := by
  simp [allTables, mapTables, List.map_flatMap, List.flatMap_map, Function.comp_def, hg]

lemma replaceTable_eq_mapTables {ref : TableRef} {t u : Table} (ht : s.table? ref = some t)
    (hu : u.id = t.id) (hown : g ref.owner t = u)
    (hother : ∀ owner x, (⟨owner, x.id⟩ : TableRef) ≠ ref → g owner x = x) :
    s.replaceTable ref.owner u = s.mapTables g hg := by
  have hid : t.id = ref.id := id_of_table? ht
  have hkept (r : Registry Table) {owner : Owner} (hne : owner ≠ ref.owner) :
      r.map (g owner) (hg owner) = r :=
    Registry.map_eq_self fun x _ => hother owner x fun he => hne (congrArg TableRef.owner he)
  have hreplaced (r : Registry Table) (hr : t ∈ r.records) :
      r.replace u = r.map (g ref.owner) (hg ref.owner) := by
    rw [Registry.replace_eq_map]
    refine Registry.map_congr fun x hx => ?_
    by_cases hxt : x.id = t.id
    · obtain rfl : x = t := Registry.eq_of_get? hx hxt (r.get?_of_mem hr)
      rw [hown]
      exact if_pos hu.symm
    · rw [hother ref.owner x fun he => hxt ((congrArg TableRef.id he).trans hid.symm)]
      exact if_neg fun he => hxt (he.trans hu)
  obtain ⟨owner, id⟩ := ref
  unfold replaceTable mapTables
  cases owner with
  | script =>
    have hfunctions (hr : ∀ f : Function, Keyed.id
        { f with tables := f.tables.map (g (.function f.id)) (hg (.function f.id)) } = Keyed.id f) :
        s.functions.map (fun f =>
          { f with tables := f.tables.map (g (.function f.id)) (hg (.function f.id)) }) hr =
          s.functions :=
      Registry.map_eq_self fun f _ => by rw [hkept f.tables Owner.noConfusion]
    rw [hfunctions]
    dsimp only
    rw [hreplaced s.tables (Registry.mem_of_get? ht)]
  | function fid =>
    obtain ⟨f, hf, ht⟩ := Option.bind_eq_some_iff.mp ht
    rw [hkept s.tables Owner.noConfusion]
    dsimp only
    rw [modifyFunction_eq]
    case hf => exact fun _ => rfl
    unfold mapFunctions
    congr 1
    refine Registry.map_congr fun x hx => ?_
    by_cases hxf : x.id = fid
    · obtain rfl : x = f := Registry.eq_of_get? hx hxf hf
      subst hxf
      rw [if_pos rfl, hreplaced x.tables (Registry.mem_of_get? ht)]
    · rw [if_neg hxf, hkept x.tables fun he => hxf (Owner.function.inj he)]

end MapTables

/-- The script whose tables have the offsets of a list. -/
def settleTables (s : Script) (starts : List (TableRef × Nat)) : Script :=
  { s.mapFunctions (Function.settleTables starts) (Function.id_settleTables starts) with
    tables := s.tables.map (Table.settleIn starts .script) (Table.id_settleIn starts .script) }

variable {s : Script} {starts : List (TableRef × Nat)}

@[simp] lemma body?_settleTables : (s.settleTables starts).body? = s.body? := by
  change (s.mapFunctions _ (Function.id_settleTables starts)).body? = _
  exact body?_mapFunctions fun _ => rfl

lemma get?_settleTables (id : RecordId) :
    (s.settleTables starts).functions.get? id =
      (s.functions.get? id).map (Function.settleTables starts) := by
  simp only [settleTables, functions_mapFunctions, Registry.get?_map]

lemma table?_settleTables (ref : TableRef) :
    (s.settleTables starts).table? ref = (s.table? ref).map (Table.settleIn starts ref.owner) := by
  obtain ⟨owner, id⟩ := ref
  cases owner with
  | script => simp [table?, settleTables]
  | function fid =>
    simp only [table?, get?_settleTables]
    cases hf : s.functions.get? fid with
    | none => rfl
    | some f =>
      have hid : f.id = fid := Registry.id_of_get? hf
      simp [Function.settleTables, hid]

lemma table?_settleTables_of_notMem {ref : TableRef} (h : ref ∉ starts.map Prod.fst) :
    (s.settleTables starts).table? ref = s.table? ref := by
  rw [table?_settleTables]
  cases ht : s.table? ref with
  | none => rfl
  | some t =>
    have hid : t.id = ref.id := id_of_table? ht
    rw [Option.map_some, Table.settleIn_of_notMem (by rwa [hid])]

lemma settleTables_eq_mapTables :
    s.settleTables starts = s.mapTables (fun owner t => t.settleIn starts owner)
      fun owner t => Table.id_settleIn starts owner t := rfl

lemma settleTables_nil (s : Script) : s.settleTables [] = s := by
  rw [settleTables_eq_mapTables]
  exact mapTables_eq_self fun _ _ => rfl

lemma settleTables_settleTables {ps qs : List (TableRef × Nat)}
    (hd : ∀ x ∈ ps.map Prod.fst, x ∉ qs.map Prod.fst) :
    (s.settleTables ps).settleTables qs = s.settleTables (ps ++ qs) := by
  simp only [settleTables_eq_mapTables, mapTables_mapTables]
  exact mapTables_congr fun entry _ => Table.settleIn_append hd entry.2

lemma replaceTable_settle {ref : TableRef} {t : Table} (ht : s.table? ref = some t) (start : Nat) :
    s.replaceTable ref.owner (t.settle start) = s.settleTables [(ref, start)] := by
  refine replaceTable_eq_mapTables ht rfl ?_ fun owner x hne => Table.settleIn_of_notMem ?_
  · rw [Table.settleIn_cons, if_pos (by rw [id_of_table? ht])]
  · rw [List.map_singleton, List.mem_singleton]
    exact hne

lemma allTables_settleTables :
    (s.settleTables starts).allTables =
      s.allTables.map fun entry => (entry.1, entry.2.settleIn starts entry.1.owner) :=
  allTables_mapTables

end Script

/-- Tables that follow each other, with their offsets. -/
def settleFrom : Nat → List (TableRef × Table) → List (TableRef × Table)
  | _, [] => []
  | start, (ref, t) :: rest => (ref, t.settle start) :: settleFrom (start + t.filledSize) rest

lemma map_settleIn_tableStarts {entries : List (TableRef × Table)}
    (hn : (entries.map Prod.fst).Nodup) (hid : ∀ entry ∈ entries, entry.2.id = entry.1.id)
    (start : Nat) :
    (entries.map fun entry =>
      (entry.1, entry.2.settleIn (tableStarts start entries) entry.1.owner)) =
        settleFrom start entries := by
  induction entries generalizing start with
  | nil => rfl
  | cons entry entries ih =>
    obtain ⟨ref, t⟩ := entry
    rw [List.map_cons, List.nodup_cons] at hn
    have hhead : ref = ⟨ref.owner, t.id⟩ := by
      rw [hid (ref, t) (by simp)]
    rw [List.map_cons, settleFrom, tableStarts, ← ih hn.2 fun e he => hid e (by simp [he])]
    congr 1
    · rw [Table.settleIn_cons, if_pos hhead]
    · refine List.map_congr_left fun e he => ?_
      have hne : ref ≠ ⟨e.1.owner, e.2.id⟩ := by
        rw [hid e (by simp [he])]
        intro h
        exact hn.1 (List.mem_map.mpr ⟨e, he, h.symm⟩)
      rw [Table.settleIn_cons, if_neg hne]

namespace Script

lemma allTables_settleTables_tableStarts (s : Script) (start : Nat) :
    (s.settleTables (tableStarts start s.allTables)).allTables = settleFrom start s.allTables := by
  rw [allTables_settleTables]
  refine map_settleIn_tableStarts s.nodup_allTables (fun entry h => ?_) start
  exact id_of_table? (mem_allTables.mp h)

end Script

end ScriptContainer
