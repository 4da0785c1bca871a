import ScriptContainer.Proofs.Dressing

/-!
# Growing again

What grows follows from the bodies, from the order and from what has been reached before. So a
forest grows again from its roots alone, and an order that begins with all the roots of a forest
leaves nothing out of it.
-/

namespace ScriptContainer

variable {body? other? : RecordId → Option (Body .bound)} {seen reached : RecordId → Prop}
  {ids more : List RecordId} {roots roots' : List Root}

/-- A nesting follows from its code and from what has been reached before. -/
lemma Nesting.Proper.unique {n m : Nesting} (hn : n.Proper body? seen) (hm : m.Proper body? seen)
    (hcode : n.code = m.code) : n = m := by
  induction n generalizing seen m with
  | done =>
    cases m with
    | done => rfl
    | step | host => cases hcode
  | step i rest ih =>
    cases m with
    | done => cases hcode
    | step j more =>
      obtain ⟨rfl, hmore⟩ := List.cons.inj hcode
      rw [ih hn.2 hm.2 hmore]
    | host j id inner more =>
      obtain ⟨rfl, -⟩ := List.cons.inj hcode
      exact absurd (hn.1 id hm.1) hm.2.1
  | host i id inner rest ihi ihr =>
    cases m with
    | done => cases hcode
    | step j more =>
      obtain ⟨rfl, -⟩ := List.cons.inj hcode
      exact absurd (hm.1 id hn.1) hn.2.1
    | host j other inner' more =>
      obtain ⟨rfl, hmore⟩ := List.cons.inj hcode
      obtain ⟨hspawn, -, hbody, hinner, hrest⟩ := hn
      obtain ⟨hspawn', -, hbody', hinner', hrest'⟩ := hm
      obtain rfl := Option.some.inj (hspawn.symm.trans hspawn')
      obtain rfl := ihi hinner hinner' (Option.some.inj (hbody.symm.trans hbody'))
      rw [ihr hrest hrest' hmore]

/-- Whatever the instructions of reached functions start is reached as well. -/
def Closed (body? : RecordId → Option (Body .bound)) (reached : RecordId → Prop) : Prop :=
  ∀ id code, reached id → body? id = some code → ∀ i ∈ code, ∀ callee,
    i.spawned? = some callee → reached callee

lemma Nesting.Proper.subset (hclosed : Closed body? reached) {n : Nesting}
    (h : n.Proper body? seen)
    (hcode : ∀ i ∈ n.code, ∀ callee, i.spawned? = some callee → reached callee) :
    ∀ id ∈ n.ids, reached id := by
  induction n generalizing seen with
  | done => exact fun _ hid => absurd hid List.not_mem_nil
  | step i rest ih => exact ih h.2 (List.forall_mem_cons.mp hcode).2
  | host i id inner rest ihi ihr =>
    obtain ⟨hspawn, -, hbody, hinner, hrest⟩ := h
    obtain ⟨hi, hcode⟩ := List.forall_mem_cons.mp hcode
    have hid := hi id hspawn
    rw [ids, List.forall_mem_cons, List.forall_mem_append]
    exact ⟨hid, ihi hinner (hclosed id _ hid hbody), ihr hrest hcode⟩

namespace Grows

lemma unique (h : Grows body? seen ids roots) (h' : Grows body? seen ids roots') :
    roots = roots' := by
  induction h generalizing roots' with
  | nil =>
    cases h'
    rfl
  | reached hid _ ih =>
    cases h' with
    | reached _ h' => exact ih h'
    | root hid' => exact absurd hid hid'
  | @root seen root ids roots hid hbody hproper _ ih =>
    generalize horder : root.id :: ids = order at h'
    cases h' with
    | nil => cases horder
    | reached hid' _ =>
      obtain ⟨rfl, -⟩ := List.cons.inj horder
      exact absurd hid' hid
    | @root _ other _ _ _ hbody' hproper' h' =>
      obtain ⟨heq, rfl⟩ := List.cons.inj horder
      obtain ⟨id, nesting⟩ := root
      obtain ⟨id', nesting'⟩ := other
      obtain rfl : id = id' := heq
      obtain rfl := hproper.unique hproper' (Option.some.inj (hbody.symm.trans hbody'))
      rw [ih h']

lemma sublist (h : Grows body? seen ids roots) : (roots.map Root.id).Sublist ids := by
  induction h with
  | nil => exact .slnil
  | reached _ _ ih => exact .cons _ ih
  | root _ _ _ _ ih => exact .cons_cons _ ih

lemma dress (hsame : SameBodies body? other?) (h : Grows body? seen ids roots) :
    Grows other? seen ids (roots.map (Root.dress other?)) := by
  induction h with
  | nil => exact .nil
  | reached hid _ ih => exact .reached hid ih
  | @root seen root ids roots hid hbody hproper _ ih =>
    obtain ⟨code, hcode, hagree⟩ := hsame root.id _ hbody
    obtain ⟨hdressed, -, hproper', -⟩ := hproper.dress hsame hagree
    have hids : (⟨root.id, root.nesting.dress other? code⟩ : Root).ids = root.ids :=
      congrArg (root.id :: ·) (root.nesting.ids_dress code)
    rw [List.map_cons, Root.dress_of_body? hcode]
    change Grows other? seen ((⟨root.id, root.nesting.dress other? code⟩ : Root).id :: ids) _
    refine .root hid ?_ hproper' ?_
    · rw [hcode, hdressed]
    · rwa [hids]

lemma closed (h : Grows body? (fun _ => False) ids roots) :
    Closed body? (· ∈ forestIds roots) := by
  intro id code hid hbody i hi callee hspawn
  rw [← map_id_forestPlots 0] at hid ⊢
  obtain ⟨p, hp, rfl⟩ := List.mem_map.mp hid
  rw [h.body?_eq hp] at hbody
  obtain rfl := Option.some.inj hbody
  obtain ⟨k, hk⟩ := List.mem_iff_getElem?.mp hi
  have hlength : k < (p.nesting.stops p.start).length := by
    rw [Nesting.length_stops]
    exact (List.getElem?_eq_some_iff.mp hk).1
  have hmem : (i, (p.nesting.stops p.start)[k]) ∈ p.instructions :=
    List.mem_of_getElem? (List.getElem?_zip_eq_some.mpr ⟨hk, List.getElem?_eq_getElem hlength⟩)
  obtain hseen | ⟨q, hq, rfl, -⟩ := h.reached_before hp hmem hspawn
  · exact hseen.elim
  · exact List.mem_map_of_mem hq

lemma subset (hclosed : Closed body? reached) (h : Grows body? seen ids roots)
    (hids : ∀ id ∈ ids, reached id) : ∀ id ∈ forestIds roots, reached id := by
  induction h with
  | nil => exact fun _ hid => absurd hid List.not_mem_nil
  | reached _ _ ih => exact ih (List.forall_mem_cons.mp hids).2
  | root _ hbody hproper _ ih =>
    obtain ⟨hroot, hids⟩ := List.forall_mem_cons.mp hids
    rw [forestIds_cons, Root.ids, List.forall_mem_append, List.forall_mem_cons]
    exact ⟨⟨hroot, hproper.subset hclosed (hclosed _ _ hroot hbody)⟩, ih hids⟩

end Grows

end ScriptContainer
