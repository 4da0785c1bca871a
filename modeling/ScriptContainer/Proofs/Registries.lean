import ScriptContainer.Script
import Mathlib.Data.List.Forall2
import Mathlib.Data.List.Perm.Basic
import Mathlib.Data.List.Nodup
import Mathlib.Data.Set.Insert
import Mathlib.Tactic.Common

/-!
# Registries as maps

A registry is looked up by id and changed record by record. This file describes every change by
what it does to the lookups, and shows that registries of the same lookups hold the same records.
-/

namespace ScriptContainer

namespace Registry

variable {α : Type} [Keyed α]

lemma find?_id_of_mem {records : List α} (hn : (records.map Keyed.id).Nodup) {x : α}
    (hx : x ∈ records) : records.find? (fun y => Keyed.id y == Keyed.id x) = some x := by
  induction records with
  | nil => simp at hx
  | cons a rest ih =>
    rw [List.map_cons, List.nodup_cons] at hn
    rcases List.mem_cons.mp hx with rfl | hx
    · simp
    · have hne : Keyed.id a ≠ Keyed.id x := by
        intro h
        exact hn.1 (h ▸ List.mem_map_of_mem hx)
      simpa [hne] using ih hn.2 hx

lemma get?_of_mem (r : Registry α) {x : α} (hx : x ∈ r.records) : r.get? (Keyed.id x) = some x :=
  find?_id_of_mem r.nodup hx

lemma mem_of_get? {r : Registry α} {id : RecordId} {x : α} (h : r.get? id = some x) :
    x ∈ r.records :=
  List.mem_of_find?_eq_some h

lemma id_of_get? {r : Registry α} {id : RecordId} {x : α} (h : r.get? id = some x) :
    Keyed.id x = id := by
  simpa using List.find?_some h

lemma get?_eq_some_iff {r : Registry α} {id : RecordId} {x : α} :
    r.get? id = some x ↔ x ∈ r.records ∧ Keyed.id x = id := by
  constructor
  · intro h
    exact ⟨mem_of_get? h, id_of_get? h⟩
  · rintro ⟨hx, rfl⟩
    exact get?_of_mem r hx

lemma eq_of_get? {r : Registry α} {id : RecordId} {x y : α} (hx : x ∈ r.records)
    (hid : Keyed.id x = id) (h : r.get? id = some y) : x = y := by
  rw [← hid, r.get?_of_mem hx] at h
  exact Option.some.inj h

lemma get?_eq_none_iff {r : Registry α} {id : RecordId} : r.get? id = none ↔ id ∉ r.ids := by
  simp [get?, ids]

lemma get?_isSome_iff {r : Registry α} {id : RecordId} : (r.get? id).isSome ↔ id ∈ r.ids := by
  rw [Option.isSome_iff_ne_none, ne_eq, get?_eq_none_iff, not_not]

lemma contains_eq_isSome (r : Registry α) (id : RecordId) :
    r.contains id = (r.get? id).isSome := by
  rw [contains, get?, Bool.eq_iff_iff]
  simp

/-- Change every record by a function that leaves ids alone. -/
def map (r : Registry α) (g : α → α) (hg : ∀ x, Keyed.id (g x) = Keyed.id x) : Registry α :=
  ⟨r.records.map g, by
    have h : (Keyed.id ∘ g : α → RecordId) = Keyed.id := funext hg
    rw [List.map_map, h]
    exact r.nodup⟩

variable {g : α → α} {hg : ∀ x, Keyed.id (g x) = Keyed.id x}

@[simp] lemma records_map (r : Registry α) : (r.map g hg).records = r.records.map g := rfl

@[simp] lemma ids_map (r : Registry α) : (r.map g hg).ids = r.ids := by
  have h : (Keyed.id ∘ g : α → RecordId) = Keyed.id := funext hg
  rw [ids, records_map, List.map_map, h, ids]

@[simp] lemma size_map (r : Registry α) : (r.map g hg).size = r.size := by simp [size]

@[simp] lemma get?_map (r : Registry α) (id : RecordId) :
    (r.map g hg).get? id = (r.get? id).map g := by
  simp only [get?, records_map, List.find?_map, Function.comp_def, hg]

lemma map_congr {r : Registry α} {h : α → α} {hh : ∀ x, Keyed.id (h x) = Keyed.id x}
    (he : ∀ x ∈ r.records, g x = h x) : r.map g hg = r.map h hh :=
  ext (List.map_congr_left he)

lemma map_eq_self {r : Registry α} (he : ∀ x ∈ r.records, g x = x) : r.map g hg = r := by
  apply ext
  rw [records_map, List.map_congr_left he, List.map_id']

lemma map_map {h : α → α} {hh : ∀ x, Keyed.id (h x) = Keyed.id x} (r : Registry α) :
    (r.map g hg).map h hh = r.map (fun x => h (g x)) fun x => by rw [hh, hg] :=
  ext (by simp [Function.comp_def])

lemma modify_eq_map (r : Registry α) (id : RecordId) {f : α → α}
    (hf : ∀ x, Keyed.id (f x) = Keyed.id x) :
    r.modify id f = r.map (fun x => if Keyed.id x = id then f x else x)
      (fun x => by split <;> simp [hf]) := by
  apply ext
  rw [modify, records_map]
  cases h : r.get? id with
  | none =>
    rw [get?_eq_none_iff] at h
    have hid : ∀ x ∈ r.records, (if Keyed.id x = id then f x else x) = x := by
      intro x hx
      refine if_neg fun he => h ?_
      rw [← he]
      exact List.mem_map_of_mem hx
    rw [List.map_congr_left hid, List.map_id']
  | some y =>
    have hy := id_of_get? h
    refine List.map_congr_left fun x hx => ?_
    rw [hf, hy]
    by_cases hx' : Keyed.id x = id
    · rw [if_pos hx', if_pos hx', eq_of_get? hx hx' h]
    · rw [if_neg hx', if_neg hx']

lemma replace_eq_map (r : Registry α) (x : α) :
    r.replace x = r.map (fun y => if Keyed.id y = Keyed.id x then x else y)
      (fun y => by split <;> simp [*]) := rfl

lemma map_replace {r : Registry α} {x : α}
    (h : ∀ y ∈ r.records, Keyed.id y = Keyed.id x → g x = g y) :
    (r.replace x).map g hg = r.map g hg := by
  rw [replace_eq_map, map_map]
  refine map_congr fun y hy => ?_
  by_cases hid : Keyed.id y = Keyed.id x
  · rw [if_pos hid, h y hy hid]
  · rw [if_neg hid]

lemma get?_replace (r : Registry α) (x : α) (id : RecordId) :
    (r.replace x).get? id = if id = Keyed.id x then (r.get? id).map fun _ => x else r.get? id := by
  rw [replace_eq_map, get?_map]
  cases h : r.get? id with
  | none => simp
  | some y => by_cases hi : id = Keyed.id x <;> simp [hi, id_of_get? h]

@[simp] lemma ids_replace (r : Registry α) (x : α) : (r.replace x).ids = r.ids := by
  rw [replace_eq_map, ids_map]

lemma ids_foldl_replace (xs : List α) (r : Registry α) : (xs.foldl replace r).ids = r.ids := by
  induction xs generalizing r with
  | nil => rfl
  | cons x xs ih => rw [List.foldl_cons, ih, ids_replace]

lemma replace_eq_self {r : Registry α} {x : α} (h : r.get? (Keyed.id x) = some x) :
    r.replace x = r := by
  rw [replace_eq_map]
  refine map_eq_self fun y hy => ?_
  by_cases hid : Keyed.id y = Keyed.id x
  · rw [if_pos hid, eq_of_get? hy hid h]
  · rw [if_neg hid]

lemma replace_replace (r : Registry α) {x y : α} (h : Keyed.id y = Keyed.id x) :
    (r.replace x).replace y = r.replace y := by
  simp only [replace_eq_map, map_map]
  refine map_congr fun z _ => ?_
  by_cases hid : Keyed.id z = Keyed.id x
  · rw [if_pos hid, if_pos h.symm, if_pos (hid.trans h.symm)]
  · rw [if_neg hid]

lemma modify_of_get? {r : Registry α} {id : RecordId} {x : α} (h : r.get? id = some x) (f : α → α) :
    r.modify id f = r.replace (f x) := by
  rw [modify, h]

lemma get?_replace_self {r : Registry α} {x : α} (h : Keyed.id x ∈ r.ids) :
    (r.replace x).get? (Keyed.id x) = some x := by
  obtain ⟨y, hy⟩ := Option.isSome_iff_exists.mp (get?_isSome_iff.mpr h)
  rw [get?_replace, if_pos rfl, hy]
  rfl

lemma get?_foldl_replace_of_mem {xs : List α} (hn : (xs.map Keyed.id).Nodup) (r : Registry α)
    {x : α} (hx : x ∈ xs) (hid : Keyed.id x ∈ r.ids) :
    (xs.foldl replace r).get? (Keyed.id x) = some x := by
  have hother (ys : List α) (r : Registry α) (id : RecordId) (h : id ∉ ys.map Keyed.id) :
      (ys.foldl replace r).get? id = r.get? id := by
    induction ys generalizing r with
    | nil => rfl
    | cons y ys ih =>
      rw [List.map_cons, List.mem_cons, not_or] at h
      rw [List.foldl_cons, ih _ h.2, get?_replace, if_neg h.1]
  induction xs generalizing r with
  | nil => cases hx
  | cons y ys ih =>
    rw [List.map_cons, List.nodup_cons] at hn
    rw [List.foldl_cons]
    rcases List.mem_cons.mp hx with rfl | hx
    · obtain ⟨old, hold⟩ := Option.isSome_iff_exists.mp (get?_isSome_iff.mpr hid)
      rw [hother ys _ _ hn.1, get?_replace, if_pos rfl, hold, Option.map_some]
    · exact ih hn.2 _ hx (by rwa [ids_replace])

lemma get?_insert (r : Registry α) (x : α) (id : RecordId) :
    (r.insert x).get? id = if id = Keyed.id x then some x else r.get? id := by
  unfold insert
  split
  case isTrue h =>
    rw [replace_eq_map, get?_map]
    by_cases hi : id = Keyed.id x
    · subst hi
      obtain ⟨y, hy⟩ := Option.isSome_iff_exists.mp (get?_isSome_iff.mpr h)
      simp [hy, id_of_get? hy]
    · cases hy : r.get? id with
      | none => simp [hi]
      | some y => simp [hi, id_of_get? hy]
  case isFalse h =>
    simp only [get?, List.find?_append]
    by_cases hi : id = Keyed.id x
    · subst hi
      have : List.find? (fun y => Keyed.id y == Keyed.id x) r.records = none :=
        get?_eq_none_iff.mpr h
      simp [this]
    · have : (Keyed.id x == id) = false := by simpa using fun he => hi he.symm
      simp [hi, this]

lemma records_insert_of_notMem {r : Registry α} {x : α} (h : Keyed.id x ∉ r.ids) :
    (r.insert x).records = r.records ++ [x] := by
  have h' : ¬ Keyed.id x ∈ r.records.map Keyed.id := h
  rw [insert, dif_neg h']

lemma records_foldl_insert {xs : List α} {r : Registry α}
    (h : (r.ids ++ xs.map Keyed.id).Nodup) :
    (xs.foldl insert r).records = r.records ++ xs := by
  induction xs generalizing r with
  | nil => simp
  | cons x xs ih =>
    have hx : Keyed.id x ∉ r.ids := by
      rw [List.map_cons, List.nodup_append] at h
      exact fun hm => h.2.2 _ hm _ (by simp) rfl
    have hr := records_insert_of_notMem hx
    have hi : (r.insert x).ids = r.ids ++ [Keyed.id x] := by simp [ids, hr]
    rw [List.foldl_cons, ih (by simpa [hi] using h), hr, List.append_assoc]
    rfl

lemma records_ofList {xs : List α} (h : (xs.map Keyed.id).Nodup) : (ofList xs).records = xs :=
  records_foldl_insert h

lemma ofList_records (r : Registry α) : ofList r.records = r := by
  apply ext
  rw [ofList, records_foldl_insert (by simpa [empty, ids] using r.nodup)]
  rfl

lemma get?_foldl_insert (xs : List α) (r : Registry α) (id : RecordId) :
    (xs.foldl insert r).get? id =
      (xs.reverse.find? fun x => Keyed.id x == id).or (r.get? id) := by
  induction xs generalizing r with
  | nil => simp
  | cons x xs ih =>
    rw [List.foldl_cons, ih, get?_insert, List.reverse_cons, List.find?_append, Option.or_assoc]
    congr 1
    by_cases hi : id = Keyed.id x
    · simp [hi]
    · have : (Keyed.id x == id) = false := by simpa using fun he => hi he.symm
      simp [hi, this]

lemma get?_foldl_insert_of_mem {xs : List α} (hn : (xs.map Keyed.id).Nodup) (r : Registry α) {x : α}
    (hx : x ∈ xs) : (xs.foldl insert r).get? (Keyed.id x) = some x := by
  have hreverse : (xs.reverse.map Keyed.id).Nodup := by
    rw [List.map_reverse]
    exact List.nodup_reverse.mpr hn
  rw [get?_foldl_insert, find?_id_of_mem hreverse (List.mem_reverse.mpr hx), Option.some_or]

lemma mem_records_iff {r : Registry α} {x : α} : x ∈ r.records ↔ r.get? (Keyed.id x) = some x := by
  rw [get?_eq_some_iff]
  simp

lemma nodup_records (r : Registry α) : r.records.Nodup := r.nodup.of_map _

lemma rel_get? {R : α → α → Prop} {r q : Registry α} (h : List.Forall₂ R r.records q.records)
    (hid : ∀ x y, R x y → Keyed.id y = Keyed.id x) (id : RecordId) :
    Option.Rel R (r.get? id) (q.get? id) := by
  unfold get?
  generalize r.records = xs, q.records = ys at h
  induction h with
  | nil => exact .none
  | @cons x y xs ys hxy _ ih =>
    rw [List.find?_cons, List.find?_cons, hid x y hxy]
    split
    · exact .some hxy
    · exact ih

/-- Registries that answer alike hold the same records. -/
lemma perm_of_get?_eq {r s : Registry α} (h : ∀ id, r.get? id = s.get? id) :
    r.records.Perm s.records := by
  rw [List.perm_ext_iff_of_nodup r.nodup_records s.nodup_records]
  intro x
  rw [mem_records_iff, mem_records_iff, h]

lemma filterMap_get?_ids (r : Registry α) : r.ids.filterMap r.get? = r.records := by
  rw [ids, List.filterMap_map, List.filterMap_congr fun x hx => ?_, List.filterMap_some]
  exact r.get?_of_mem hx

lemma eq_of_ids {r q : Registry α} (hids : r.ids = q.ids)
    (h : ∀ id ∈ q.ids, r.get? id = q.get? id) : r = q := by
  apply ext
  rw [← r.filterMap_get?_ids, ← q.filterMap_get?_ids, hids]
  exact List.filterMap_congr h

lemma ids_insert_of_mem {r : Registry α} {x : α} (h : Keyed.id x ∈ r.ids) :
    (r.insert x).ids = r.ids := by
  have h' : Keyed.id x ∈ r.records.map Keyed.id := h
  rw [insert, dif_pos h', ids_replace]

lemma ids_prefix_insert (r : Registry α) (x : α) : r.ids <+: (r.insert x).ids := by
  by_cases h : Keyed.id x ∈ r.ids
  · exact (ids_insert_of_mem h).symm ▸ List.prefix_rfl
  · rw [ids, ids, records_insert_of_notMem h, List.map_append]
    exact List.prefix_append _ _

lemma ids_prefix_foldl_insert (xs : List α) (r : Registry α) :
    r.ids <+: (xs.foldl insert r).ids := by
  induction xs generalizing r with
  | nil => exact List.prefix_rfl
  | cons x xs ih => exact (r.ids_prefix_insert x).trans (ih _)

lemma ids_foldl_insert_of_mem {xs : List α} {r : Registry α} (h : ∀ x ∈ xs, Keyed.id x ∈ r.ids) :
    (xs.foldl insert r).ids = r.ids := by
  induction xs generalizing r with
  | nil => rfl
  | cons x xs ih =>
    rw [List.forall_mem_cons] at h
    have hx := ids_insert_of_mem h.1
    rw [List.foldl_cons, ih (by rw [hx]; exact h.2), hx]

/-- A registry is made from another one with the same ids by adding the records that differ. -/
lemma foldl_insert_filter {r q : Registry α} {differs : α → Bool} (hids : q.ids = r.ids)
    (h : ∀ x ∈ q.records, differs x = false → x ∈ r.records) :
    (q.records.filter differs).foldl insert r = q := by
  have hmem : ∀ x ∈ q.records.filter differs, Keyed.id x ∈ r.ids := by
    intro x hx
    rw [← hids]
    exact List.mem_map_of_mem (List.mem_of_mem_filter hx)
  refine eq_of_ids ((ids_foldl_insert_of_mem hmem).trans hids.symm) fun id hid => ?_
  obtain ⟨x, hx, rfl⟩ := List.mem_map.mp hid
  rw [q.get?_of_mem hx]
  cases hdiffers : differs x with
  | true =>
    have hn : ((q.records.filter differs).map Keyed.id).Nodup :=
      q.nodup.sublist (List.filter_sublist.map _)
    exact get?_foldl_insert_of_mem hn r (List.mem_filter.mpr ⟨hx, hdiffers⟩)
  | false =>
    have hnone : (q.records.filter differs).reverse.find? (fun y => Keyed.id y == Keyed.id x) =
        none := by
      rw [List.find?_eq_none]
      intro y hy hyx
      rw [List.mem_reverse, List.mem_filter] at hy
      have hsame : x = y := eq_of_get? hx (beq_iff_eq.mp hyx).symm (q.get?_of_mem hy.1)
      rw [hsame, hy.2] at hdiffers
      cases hdiffers
    rw [get?_foldl_insert, hnone, Option.none_or]
    exact r.get?_of_mem (h x hx hdiffers)

lemma foldl_replace_map (r : Registry α) : r.records.foldl replace (r.map g hg) = r := by
  have hids : (r.records.foldl replace (r.map g hg)).ids = r.ids := by
    rw [ids_foldl_replace, ids_map]
  refine eq_of_ids hids fun id hid => ?_
  obtain ⟨x, hx, rfl⟩ := List.mem_map.mp hid
  rw [r.get?_of_mem hx]
  refine get?_foldl_replace_of_mem r.nodup _ hx ?_
  rw [ids_map]
  exact hid

section Forall

variable {P : α → Prop}

lemma forall_insert {r : Registry α} {x : α} (hr : ∀ y ∈ r.records, P y) (hx : P x) :
    ∀ y ∈ (r.insert x).records, P y := by
  intro y hy
  have hget := mem_records_iff.mp hy
  rw [get?_insert] at hget
  split at hget
  · exact Option.some.inj hget ▸ hx
  · exact hr y (mem_of_get? hget)

lemma forall_replace {r : Registry α} {x : α} (hr : ∀ y ∈ r.records, P y) (hx : P x) :
    ∀ y ∈ (r.replace x).records, P y := by
  intro y hy
  obtain ⟨z, hz, rfl⟩ := List.mem_map.mp hy
  split
  · exact hx
  · exact hr z hz

lemma forall_modify {r : Registry α} {f : α → α} (id : RecordId) (hr : ∀ y ∈ r.records, P y)
    (hf : ∀ y ∈ r.records, P y → P (f y)) : ∀ y ∈ (r.modify id f).records, P y := by
  unfold modify
  split
  case h_1 x hx => exact forall_replace hr (hf x (mem_of_get? hx) (hr x (mem_of_get? hx)))
  case h_2 => exact hr

lemma forall_foldl_insert {xs : List α} {r : Registry α} (hr : ∀ y ∈ r.records, P y)
    (hxs : ∀ x ∈ xs, P x) : ∀ y ∈ (xs.foldl insert r).records, P y := by
  induction xs generalizing r with
  | nil => exact hr
  | cons x xs ih =>
    rw [List.forall_mem_cons] at hxs
    exact ih (forall_insert hr hxs.1) hxs.2

end Forall

section InsertAt

variable {r : Registry α} {index : Nat} {x y : α}

lemma perm_insertAt (r : Registry α) (index : Nat) (x : α) :
    (r.insertAt index x).records.Perm (x :: without r.records (Keyed.id x)) := by
  refine List.perm_middle.trans ?_
  rw [List.take_append_drop]

lemma mem_insertAt_iff :
    y ∈ (r.insertAt index x).records ↔ y = x ∨ y ∈ r.records ∧ Keyed.id y ≠ Keyed.id x := by
  rw [(r.perm_insertAt index x).mem_iff, List.mem_cons, without, List.mem_filter, bne_iff_ne]

lemma mem_of_mem_insertAt (h : y ∈ (r.insertAt index x).records) : y = x ∨ y ∈ r.records :=
  (mem_insertAt_iff.mp h).imp_right And.left

lemma get?_insertAt_of_get? (h : Keyed.id x ∉ r.ids) {id : RecordId} (hy : r.get? id = some y) :
    (r.insertAt index x).get? id = some y := by
  obtain ⟨hmem, rfl⟩ := get?_eq_some_iff.mp hy
  have hne : Keyed.id y ≠ Keyed.id x := fun he => h (he ▸ List.mem_map_of_mem hmem)
  exact get?_of_mem _ (mem_insertAt_iff.mpr (.inr ⟨hmem, hne⟩))

lemma without_of_notMem (h : Keyed.id x ∉ r.ids) : without r.records (Keyed.id x) = r.records := by
  refine List.filter_eq_self.mpr fun y hy => ?_
  rw [bne_iff_ne]
  exact fun he => h (List.mem_map.mpr ⟨y, hy, he⟩)

lemma records_insertAt_of_notMem (h : Keyed.id x ∉ r.ids) :
    (r.insertAt index x).records = r.records.take index ++ x :: r.records.drop index := by
  unfold insertAt
  dsimp only
  rw [without_of_notMem h]

lemma perm_insertAt_of_notMem (h : Keyed.id x ∉ r.ids) :
    (r.insertAt index x).ids.Perm (Keyed.id x :: r.ids) := by
  have := (r.perm_insertAt index x).map Keyed.id
  rwa [without_of_notMem h] at this

end InsertAt

end Registry

end ScriptContainer
