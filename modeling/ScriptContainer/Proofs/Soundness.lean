import ScriptContainer.Proofs.Filling
import ScriptContainer.Proofs.Resolving

/-!
# Sound scripts

In a sound script every reference is to a record, every value is of the declared type, and every
function that is started is there. Such a script is built from one that has the same records, by
filling in code and tables that were bound to these records.
-/

namespace ScriptContainer

lemma Table.Encodes.of_includes {s t : Script} {x : Table} (h : x.Encodes s) (ht : t.Includes s) :
    x.Encodes t :=
  ⟨h.1, fun refs hvalues ref href => ht (.variable ref) (h.2 refs hvalues ref href)⟩

namespace Script

variable {s t : Script}

/-- Nothing in the script stands in the way of building it. -/
structure Sound (s : Script) : Prop where
  /-- Every reference in code passes the check. -/
  code : ∀ f ∈ s.functions.records, ∀ i ∈ f.code, s.Encodes i
  /-- Tables hold elements of the declared type, and those that are variables pass the check. -/
  tables : ∀ entry ∈ s.allTables, entry.2.Encodes s
  vars : ∀ v ∈ s.vars.records, v.value.fits v.type = true
  owned : ∀ f ∈ s.functions.records, ∀ v ∈ f.vars.records, v.value.fits v.type = true
  spawns : ∀ f ∈ s.functions.records, ∀ id ∈ f.spawns, s.functions.contains id = true

namespace Sound

variable (h : s.Sound)
include h

lemma valuesFit : s.ValuesFit := by
  have hscope (scope : Scope) : ∀ v ∈ s.variablesIn scope, v.value.fits v.type = true :=
    fun v hv => h.vars v (List.mem_of_mem_filter hv)
  exact ⟨fun f hf => h.owned f (List.mem_of_mem_filter hf), hscope _, hscope _, hscope _⟩

lemma buildable (hroom : s.regionSize < UInt32.size) : s.Buildable .lenient where
  room := hroom
  code := h.code
  tables := h.tables
  values := h.valuesFit
  labels _ _ := rfl

end Sound

/-- The tables of the script and the types of their elements. -/
def tableTypes (s : Script) : List (TableRef × ElementType) :=
  s.allTables.map fun entry => (entry.1, entry.2.type)

lemma exists_of_tableTypes (h : t.tableTypes = s.tableTypes) {ref : TableRef} {x : Table}
    (hx : t.table? ref = some x) : ∃ y, s.table? ref = some y ∧ y.type = x.type := by
  have hmem : (ref, x.type) ∈ s.tableTypes := by
    rw [← h]
    exact List.mem_map_of_mem (f := fun entry : TableRef × Table => (entry.1, entry.2.type))
      (mem_allTables.mpr hx)
  obtain ⟨⟨other, y⟩, hy, he⟩ := List.mem_map.mp hmem
  obtain ⟨rfl, htype⟩ := Prod.mk.inj he
  exact ⟨y, mem_allTables.mp hy, htype⟩

/-- The script has the records of the other one, and whatever it refers to is among these. -/
structure RestsOn (t s : Script) : Prop where
  includes : t.Includes s
  types : t.tableTypes = s.tableTypes
  code : ∀ f ∈ t.functions.records, ∀ i ∈ f.code, s.Binds i
  tables : ∀ entry ∈ t.allTables, entry.2.Encodes s
  vars : ∀ v ∈ t.vars.records, v.value.fits v.type = true
  owned : ∀ f ∈ t.functions.records, ∀ v ∈ f.vars.records, v.value.fits v.type = true

lemma RestsOn.sound (h : t.RestsOn s) : t.Sound where
  code f hf i hi := h.code f hf i hi t h.includes
  tables entry hentry := (h.tables entry hentry).of_includes h.includes
  vars := h.vars
  owned := h.owned
  spawns := by
    intro f hf id hid
    obtain ⟨i, hi, hspawn⟩ := List.mem_filterMap.mp hid
    have hbody := (h.code f hf i hi t h.includes).isSome_body? hspawn
    rw [Registry.contains_eq_isSome]
    rwa [body?, Option.isSome_map] at hbody

lemma Includes.of_sameOutline {u : Script} (h : t.Includes s) (hu : t.SameOutline u) :
    u.Includes s := by
  intro symbol hs
  rw [hu.has_eq]
  exact h symbol hs

lemma includes_of_functions {functions : Registry Function}
    (h : ∀ id f, s.functions.get? id = some f → functions.get? id = some f) :
    Includes { s with functions } s := by
  have howned {α : Type} [Keyed α] (owned : Function → Registry α) {function id : RecordId}
      (hs : ((s.functions.get? function).bind fun f => (owned f).get? id).isSome = true) :
      ((functions.get? function).bind fun f => (owned f).get? id).isSome = true := by
    obtain ⟨x, hx⟩ := Option.isSome_iff_exists.mp hs
    obtain ⟨f, hf, hx⟩ := Option.bind_eq_some_iff.mp hx
    rw [h function f hf, Option.bind_some, hx]
    rfl
  intro symbol hs
  cases symbol with
  | label ref => exact howned Function.labels hs
  | «variable» ref =>
    obtain ⟨owner, id⟩ := ref
    cases owner with
    | script => exact hs
    | function f => exact howned Function.vars hs
  | table ref =>
    obtain ⟨owner, id⟩ := ref
    cases owner with
    | script => exact hs
    | function f => exact howned Function.tables hs
  | imported id => exact hs
  | function id =>
    change functions.contains id = true
    change s.functions.contains id = true at hs
    rw [Registry.contains_eq_isSome] at hs ⊢
    obtain ⟨f, hf⟩ := Option.isSome_iff_exists.mp hs
    rw [h id f hf]
    rfl

lemma sameOutline_mapFunctions {g : Function → Function} {hg : ∀ f, (g f).id = f.id}
    (hsame : ∀ f, (g f).outline = f.outline) : t.SameOutline (t.mapFunctions g hg) where
  imports := rfl
  functions id := by
    rw [functions_mapFunctions, Registry.get?_map, Option.map_map]
    exact congrArg (fun outline => Option.map outline _) (funext hsame)
  vars _ := Iff.rfl
  tables := rfl

lemma sameOutline_mapTables {g : Owner → Table → Table} {hg : ∀ owner t, (g owner t).id = t.id} :
    t.SameOutline (t.mapTables g hg) where
  imports := rfl
  functions id := by
    have hsame (f : Function) : Function.outline
        { f with tables := f.tables.map (g (.function f.id)) (hg (.function f.id)) } = f.outline := by
      unfold Function.outline
      rw [Registry.ids_map]
    rw [mapTables, Registry.get?_map, Option.map_map]
    exact congrArg (fun outline => Option.map outline _) (funext hsame)
  vars _ := Iff.rfl
  tables := by rw [mapTables, Registry.ids_map]

lemma allTables_mapFunctions {g : Function → Function} {hg : ∀ f, (g f).id = f.id}
    (htables : ∀ f, (g f).tables = f.tables) : (t.mapFunctions g hg).allTables = t.allTables := by
  simp only [allTables, functions_mapFunctions, Registry.records_map, List.flatMap_map, hg, htables]
  rfl

namespace RestsOn

variable (h : t.RestsOn s)
include h

lemma mapFunctions {g : Function → Function} {hg : ∀ f, (g f).id = f.id}
    (hsame : ∀ f, g f = { f with code := (g f).code, isInline := (g f).isInline })
    (hcode : ∀ f ∈ t.functions.records, ∀ i ∈ (g f).code, s.Binds i) :
    (t.mapFunctions g hg).RestsOn s where
  includes := by
    apply h.includes.of_sameOutline
    apply sameOutline_mapFunctions
    intro f
    rw [hsame f]
    rfl
  types := by
    unfold tableTypes
    rw [allTables_mapFunctions fun f => by rw [hsame f]]
    exact h.types
  code := by
    intro x hx
    obtain ⟨f, hf, rfl⟩ := List.mem_map.mp hx
    exact hcode f hf
  tables := by
    rw [allTables_mapFunctions fun f => by rw [hsame f]]
    exact h.tables
  vars := h.vars
  owned := by
    intro x hx
    obtain ⟨f, hf, rfl⟩ := List.mem_map.mp hx
    rw [hsame f]
    exact h.owned f hf

lemma mapTables {g : Owner → Table → Table} {hg : ∀ owner t, (g owner t).id = t.id}
    (htype : ∀ owner x, (g owner x).type = x.type)
    (htables : ∀ entry ∈ t.allTables, (g entry.1.owner entry.2).Encodes s) :
    (t.mapTables g hg).RestsOn s where
  includes := h.includes.of_sameOutline sameOutline_mapTables
  types := by
    rw [← h.types, tableTypes, allTables_mapTables, List.map_map]
    exact List.map_congr_left fun entry _ => congrArg (Prod.mk entry.1) (htype _ _)
  code := by
    intro x hx
    obtain ⟨f, hf, rfl⟩ := List.mem_map.mp hx
    exact h.code f hf
  tables := by
    rw [allTables_mapTables]
    intro x hx
    obtain ⟨entry, hentry, rfl⟩ := List.mem_map.mp hx
    exact htables entry hentry
  vars := h.vars
  owned := by
    intro x hx
    obtain ⟨f, hf, rfl⟩ := List.mem_map.mp hx
    exact h.owned f hf

lemma replaceTable {ref : TableRef} {x y : Table} (hx : t.table? ref = some x) (hid : y.id = x.id)
    (htype : y.type = x.type) (hy : y.Encodes s) : (t.replaceTable ref.owner y).RestsOn s := by
  let g (owner : Owner) (z : Table) : Table :=
    if (⟨owner, z.id⟩ : TableRef) = ref then { y with id := z.id, type := z.type } else z
  have hg (owner : Owner) (z : Table) : (g owner z).id = z.id := by
    unfold g
    split <;> rfl
  have hown : g ref.owner x = y := by
    unfold g
    rw [if_pos (by rw [id_of_table? hx]), ← hid, ← htype]
  have hreplace : t.replaceTable ref.owner y = t.mapTables g hg :=
    replaceTable_eq_mapTables hx hid hown fun owner z hne => if_neg hne
  rw [hreplace]
  apply h.mapTables
  · intro owner z
    unfold g
    split <;> rfl
  -- Tables other than `x` are left alone, and `x` becomes `y`.
  · rintro ⟨other, z⟩ hentry
    have hz := mem_allTables.mp hentry
    by_cases hother : other = ref
    · rw [hother] at hz ⊢
      obtain rfl := Option.some.inj (hz.symm.trans hx)
      rw [hown]
      exact hy
    · have hkept : g other.owner z = z := if_neg (by rwa [id_of_table? hz])
      rw [hkept]
      exact h.tables _ hentry

end RestsOn

end Script

end ScriptContainer
