import ScriptContainer.Proofs.Decodes
import ScriptContainer.Proofs.Registries

/-!
# Outlines

A lookup by number asks only which ids there are and what owns them. Scripts of the same outline
answer every such lookup alike, whatever else their records hold.
-/

namespace ScriptContainer

lemma Registry.map_lookup {α β : Type} [Named α] (r : Registry α) (id : RecordId)
    (g : RecordId → β) :
    (r.lookup (.id id)).map (fun x => g (Keyed.id x)) = if id ∈ r.ids then some (g id) else none := by
  change (r.get? id).map _ = _
  cases hx : r.get? id with
  | none =>
    rw [if_neg (get?_eq_none_iff.mp hx)]
    rfl
  | some x =>
    rw [if_pos (get?_isSome_iff.mp (by rw [hx]; rfl)), Option.map_some, id_of_get? hx]

lemma Registry.map_lookup_congr {α β : Type} [Named α] {r r' : Registry α} (h : r'.ids = r.ids)
    (id : RecordId) (g : RecordId → β) :
    (r'.lookup (.id id)).map (fun x => g (Keyed.id x)) =
      (r.lookup (.id id)).map fun x => g (Keyed.id x) := by
  rw [map_lookup, map_lookup, h]

lemma Registry.isSome_get?_congr {α : Type} [Keyed α] {r r' : Registry α} (h : r'.ids = r.ids)
    (id : RecordId) : (r'.get? id).isSome = (r.get? id).isSome := by
  rw [Bool.eq_iff_iff, get?_isSome_iff, get?_isSome_iff, h]

/-- The id of a function and those of the records that it owns. -/
structure Outline where
  id : RecordId
  vars : List RecordId
  tables : List RecordId
  labels : List RecordId

namespace Function

def outline (f : Function) : Outline := ⟨f.id, f.vars.ids, f.tables.ids, f.labels.ids⟩

variable {f g : Function}

lemma findLabel_congr (h : g.outline = f.outline) (id : RecordId) :
    g.findLabel (.id id) = f.findLabel (.id id) := by
  obtain ⟨hid, -, -, hlabels⟩ := Outline.mk.inj h
  unfold findLabel
  rw [hid]
  exact Registry.map_lookup_congr hlabels id (LabelRef.mk f.id)

lemma findVariable_congr (h : g.outline = f.outline) (id : RecordId) :
    g.findVariable (.id id) = f.findVariable (.id id) := by
  obtain ⟨hid, hvars, -, -⟩ := Outline.mk.inj h
  unfold findVariable
  rw [hid]
  exact Registry.map_lookup_congr hvars id (VarRef.mk (.function f.id))

lemma findTable_congr (h : g.outline = f.outline) (id : RecordId) :
    g.findTable (.id id) = f.findTable (.id id) := by
  obtain ⟨hid, -, htables, -⟩ := Outline.mk.inj h
  unfold findTable
  rw [hid]
  exact Registry.map_lookup_congr htables id (TableRef.mk (.function f.id))

lemma findSymbol_congr (h : g.outline = f.outline) (id : RecordId) :
    g.findSymbol (.id id) = f.findSymbol (.id id) := by
  unfold findSymbol
  rw [findLabel_congr h, findVariable_congr h, findTable_congr h]

end Function

lemma firstIn_congr {α : Type} {find : Function → Option α} {fs gs : List Function}
    (hfind : ∀ f g : Function, g.outline = f.outline → find g = find f)
    (h : gs.map Function.outline = fs.map Function.outline) : firstIn gs find = firstIn fs find := by
  unfold firstIn
  induction fs generalizing gs with
  | nil =>
    obtain rfl := List.map_eq_nil_iff.mp h
    rfl
  | cons f fs ih =>
    cases gs with
    | nil => cases h
    | cons g gs =>
      obtain ⟨hhead, htail⟩ := List.cons.inj h
      rw [List.findSome?_cons, List.findSome?_cons, hfind f g hhead, ih htail]

/-- The scripts hold records of the same ids, and their functions own records of the same ids. -/
structure Script.SameOutline (s t : Script) : Prop where
  imports : t.imports.ids = s.imports.ids
  functions : ∀ id,
    (t.functions.get? id).map Function.outline = (s.functions.get? id).map Function.outline
  vars : ∀ id, id ∈ t.vars.ids ↔ id ∈ s.vars.ids
  tables : t.tables.ids = s.tables.ids

namespace Script.SameOutline

variable {s t : Script}

lemma symm (h : s.SameOutline t) : t.SameOutline s :=
  ⟨h.imports.symm, fun id => (h.functions id).symm, fun id => (h.vars id).symm, h.tables.symm⟩

lemma trans {u : Script} (h : s.SameOutline t) (hu : t.SameOutline u) : s.SameOutline u :=
  ⟨hu.imports.trans h.imports, fun id => (hu.functions id).trans (h.functions id),
    fun id => (hu.vars id).trans (h.vars id), hu.tables.trans h.tables⟩

lemma exists_function (h : s.SameOutline t) {id : RecordId} {f : Function}
    (hf : s.functions.get? id = some f) :
    ∃ g, t.functions.get? id = some g ∧ g.outline = f.outline := by
  have := h.functions id
  rw [hf, Option.map_some] at this
  exact Option.map_eq_some_iff.mp this

lemma isSome_bind {α : Type} [Keyed α] (h : s.SameOutline t) (owned : Function → Registry α)
    (howned : ∀ f g : Function, g.outline = f.outline → (owned g).ids = (owned f).ids)
    (function id : RecordId) :
    ((t.functions.get? function).bind fun f => (owned f).get? id).isSome =
      ((s.functions.get? function).bind fun f => (owned f).get? id).isSome := by
  cases hf : s.functions.get? function with
  | none =>
    have := h.functions function
    rw [hf, Option.map_none, Option.map_eq_none_iff] at this
    rw [this]
  | some f =>
    obtain ⟨g, hg, hgf⟩ := h.exists_function hf
    rw [hg, Option.bind_some, Option.bind_some, Registry.isSome_get?_congr (howned f g hgf)]

lemma has_eq (h : s.SameOutline t) (symbol : Symbol) : t.has symbol = s.has symbol := by
  have hvars (id : RecordId) : (t.vars.get? id).isSome = (s.vars.get? id).isSome := by
    rw [Bool.eq_iff_iff, Registry.get?_isSome_iff, Registry.get?_isSome_iff, h.vars]
  cases symbol with
  | label ref =>
    exact h.isSome_bind Function.labels (fun _ _ he => congrArg Outline.labels he) _ _
  | «variable» ref =>
    obtain ⟨owner, id⟩ := ref
    cases owner with
    | script => exact hvars id
    | function f =>
      exact h.isSome_bind Function.vars (fun _ _ he => congrArg Outline.vars he) f id
  | table ref =>
    obtain ⟨owner, id⟩ := ref
    cases owner with
    | script => exact Registry.isSome_get?_congr h.tables id
    | function f =>
      exact h.isSome_bind Function.tables (fun _ _ he => congrArg Outline.tables he) f id
  | imported id =>
    change t.imports.contains id = s.imports.contains id
    rw [Registry.contains_eq_isSome, Registry.contains_eq_isSome,
      Registry.isSome_get?_congr h.imports]
  | function id =>
    change t.functions.contains id = s.functions.contains id
    have := congrArg Option.isSome (h.functions id)
    rwa [Option.isSome_map, Option.isSome_map, ← Registry.contains_eq_isSome,
      ← Registry.contains_eq_isSome] at this

lemma check_eq (h : s.SameOutline t) : t.check = s.check := by
  funext symbol
  unfold check
  rw [h.has_eq]

lemma numbering_eq (h : s.SameOutline t) : t.numbering = s.numbering := by
  unfold numbering
  rw [h.check_eq]

lemma findVariable_eq (h : s.SameOutline t) (id : RecordId) :
    t.findVariable (.id id) = s.findVariable (.id id) := by
  have ht := t.vars.map_lookup id (VarRef.mk .script)
  have hs := s.vars.map_lookup id (VarRef.mk .script)
  simp only [h.vars] at ht
  exact ht.trans hs.symm

lemma findTable_eq (h : s.SameOutline t) (id : RecordId) :
    t.findTable (.id id) = s.findTable (.id id) :=
  Registry.map_lookup_congr h.tables id (TableRef.mk .script)

lemma findImport_eq (h : s.SameOutline t) (id : RecordId) :
    t.findImport (.id id) = s.findImport (.id id) :=
  Registry.map_lookup_congr h.imports id fun id => id

lemma findFunction_eq (h : s.SameOutline t) (id : RecordId) :
    t.findFunction (.id id) = s.findFunction (.id id) := by
  have := congrArg (Option.map Outline.id) (h.functions id)
  rwa [Option.map_map, Option.map_map] at this

lemma findSymbol_eq (h : s.SameOutline t) (id : RecordId) :
    t.findSymbol (.id id) = s.findSymbol (.id id) := by
  unfold findSymbol
  rw [h.findTable_eq, h.findImport_eq, h.findFunction_eq, h.findVariable_eq]

end Script.SameOutline

/-- The contexts hold scripts of the same outline, and functions of the same outlines are
entered. -/
structure Context.SameOutline (ctx other : Context) : Prop where
  script : ctx.script.SameOutline other.script
  scopes : other.scopes.map Function.outline = ctx.scopes.map Function.outline

namespace Context.SameOutline

variable {ctx other : Context}

lemma push (h : ctx.SameOutline other) {f g : Function} (hf : g.outline = f.outline) :
    (ctx.push f).SameOutline (other.push g) :=
  ⟨h.script, congrArg₂ List.cons hf h.scopes⟩

lemma findVariable_eq (h : ctx.SameOutline other) (id : RecordId) :
    other.findVariable (.id id) = ctx.findVariable (.id id) := by
  unfold Context.findVariable
  rw [firstIn_congr (fun _ _ he => Function.findVariable_congr he id) h.scopes,
    h.script.findVariable_eq]

theorem rebinding_eq (h : ctx.SameOutline other) : other.rebinding = ctx.rebinding := by
  have hresolve (id : RecordId) : other.resolve (.id id) = ctx.resolve (.id id) := by
    unfold resolve
    rw [firstIn_congr (fun _ _ he => Function.findSymbol_congr he id) h.scopes,
      h.script.findSymbol_eq]
  have hlabel (id : RecordId) : other.findLabel (.id id) = ctx.findLabel (.id id) := by
    unfold Context.findLabel
    rw [firstIn_congr (fun _ _ he => Function.findLabel_congr he id) h.scopes]
  have htable (id : RecordId) : other.findTable (.id id) = ctx.findTable (.id id) := by
    unfold Context.findTable
    rw [firstIn_congr (fun _ _ he => Function.findTable_congr he id) h.scopes,
      h.script.findTable_eq]
  unfold rebinding findCallee findImport findFunction
  simp only [hresolve, h.findVariable_eq, hlabel, htable, h.script.findImport_eq,
    h.script.findFunction_eq]

end Context.SameOutline

end ScriptContainer
