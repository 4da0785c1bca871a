import ScriptContainer.Reference

/-!
# Registries

A registry keeps records in the order in which they were first added, at most one for each id.
Adding a record whose id is taken puts it in the place of the old one.
-/

namespace ScriptContainer

/-- Records that carry their own id. -/
class Keyed (α : Type) where
  id : α → RecordId

/-- Records that may carry a name as well. -/
class Named (α : Type) extends Keyed α where
  name : α → Option String

/-- Records in order, each id at most once. -/
structure Registry (α : Type) [Keyed α] where
  records : List α
  nodup : (records.map Keyed.id).Nodup

namespace Registry

variable {α : Type} [Keyed α]

def empty : Registry α := ⟨[], List.nodup_nil⟩

instance : Inhabited (Registry α) := ⟨empty⟩

theorem ext {r s : Registry α} (h : r.records = s.records) : r = s := by
  cases r; cases s; cases h; rfl

def ids (r : Registry α) : List RecordId := r.records.map Keyed.id

def get? (r : Registry α) (id : RecordId) : Option α := r.records.find? fun x => Keyed.id x == id

/-- Whether some record has this id. -/
def contains (r : Registry α) (id : RecordId) : Bool := r.records.any fun x => Keyed.id x == id

def size (r : Registry α) : Nat := r.records.length

/-- The list with `x` in the place of the records that share its id. -/
def replaceIn (x : α) (records : List α) : List α :=
  records.map fun y => if Keyed.id y = Keyed.id x then x else y

theorem map_id_replaceIn (x : α) (records : List α) :
    (replaceIn x records).map Keyed.id = records.map Keyed.id := by
  rw [replaceIn, List.map_map]
  refine List.map_congr_left fun y _ => ?_
  by_cases h : Keyed.id y = Keyed.id x <;> simp [h]

/-- Put `x` in the place of the record that shares its id; without one nothing changes. -/
def replace (r : Registry α) (x : α) : Registry α :=
  ⟨replaceIn x r.records, by rw [map_id_replaceIn]; exact r.nodup⟩

theorem nodup_insertIdx {records : List α} {x : α} (index : Nat)
    (fresh : Keyed.id x ∉ records.map Keyed.id) (h : (records.map Keyed.id).Nodup) :
    ((records.take index ++ x :: records.drop index).map Keyed.id).Nodup := by
  have hp : (records.take index ++ x :: records.drop index).Perm (x :: records) := by
    refine List.perm_middle.trans ?_
    rw [List.take_append_drop]
  refine ((hp.map Keyed.id).nodup_iff).2 ?_
  rw [List.map_cons, List.nodup_cons]
  exact ⟨fresh, h⟩

/-- The records other than the one with this id. -/
def without (records : List α) (id : RecordId) : List α := records.filter fun y => Keyed.id y != id

theorem not_mem_without (records : List α) (id : RecordId) :
    id ∉ (without records id).map Keyed.id := by
  simp [without]

theorem nodup_without {records : List α} (id : RecordId) (h : (records.map Keyed.id).Nodup) :
    ((without records id).map Keyed.id).Nodup :=
  h.sublist (List.filter_sublist.map _)

/-- Put `x` at the given place; a record with the same id is taken out first. This never fails,
whereas an ordered map that moves a record it holds only to the place of one of its records stops at
the place `r.size` if the id of `x` is taken. -/
def insertAt (r : Registry α) (index : Nat) (x : α) : Registry α :=
  let rest := without r.records (Keyed.id x)
  ⟨rest.take index ++ x :: rest.drop index,
    nodup_insertIdx index (not_mem_without _ _) (nodup_without _ r.nodup)⟩

/-- Add `x` in the place of the record that shares its id, or else at the end. -/
def insert (r : Registry α) (x : α) : Registry α :=
  if h : Keyed.id x ∈ r.records.map Keyed.id then r.replace x
  else ⟨r.records ++ [x], by
    have := nodup_insertIdx r.records.length h r.nodup
    rwa [List.take_length, List.drop_length] at this⟩

/-- The registry that holds the records of a list, later ones in the place of earlier ones. -/
def ofList (records : List α) : Registry α := records.foldl insert empty

/-- Change the record with this id by a function that leaves ids alone. -/
def modify (r : Registry α) (id : RecordId) (f : α → α) : Registry α :=
  match r.get? id with
  | some x => r.replace (f x)
  | none => r

/-- The position of the record with this id. -/
def indexOf? (r : Registry α) (id : RecordId) : Option Nat :=
  r.records.findIdx? fun x => Keyed.id x == id

/-- The record that answers to a key: the one with the id, or the first one with the name. -/
def lookup {α : Type} [Named α] (r : Registry α) : Key → Option α
  | .id id => r.get? id
  | .name name => r.records.find? fun x => Named.name x == some name

end Registry

end ScriptContainer
