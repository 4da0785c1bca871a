import ScriptContainer.Proofs.Building
import ScriptContainer.Proofs.Outlines

/-!
# The declared part of a script

A container says of its functions only what they are declared to be. What reading goes by is therefore
the script without the functions that have no declaration.
-/

namespace ScriptContainer

section Sorting

variable {α : Type}

lemma eq_of_append_eq_append {q : α → Bool} {l₁ l₂ m₁ m₂ : List α} (h : l₁ ++ l₂ = m₁ ++ m₂)
    (hl₁ : ∀ a ∈ l₁, q a = true) (hl₂ : ∀ a ∈ l₂, q a = false)
    (hm₁ : ∀ a ∈ m₁, q a = true) (hm₂ : ∀ a ∈ m₂, q a = false) : l₁ = m₁ ∧ l₂ = m₂ := by
  have hfirst := congrArg (List.filter q) h
  have hnone {l : List α} (hl : ∀ a ∈ l, q a = false) : l.filter q = [] :=
    List.filter_eq_nil_iff.mpr fun a ha hq => by rw [hl a ha] at hq; cases hq
  rw [List.filter_append, List.filter_append, List.filter_eq_self.mpr hl₁,
    List.filter_eq_self.mpr hm₁, hnone hl₂, hnone hm₂, List.append_nil, List.append_nil] at hfirst
  subst hfirst
  exact ⟨rfl, List.append_cancel_left h⟩

/-- Sorting keeps equal elements in order, so that it does not matter whether elements are left out
before it or afterwards. -/
lemma filter_mergeSort {le : α → α → Bool} (trans : ∀ a b c, le a b → le b c → le a c)
    (total : ∀ a b, le a b || le b a) (p : α → Bool) (l : List α) :
    (l.mergeSort le).filter p = (l.filter p).mergeSort le := by
  induction l with
  | nil => simp
  | cons a l ih =>
    obtain ⟨l₁, l₂, hsort, hrest, hbefore⟩ := List.mergeSort_cons trans total a l
    cases hp : p a with
    | false =>
      have hneg : ¬ p a = true := by rw [hp]; exact Bool.false_ne_true
      rw [hsort, List.filter_append, List.filter_cons_of_neg hneg, ← List.filter_append, ← hrest, ih,
        List.filter_cons_of_neg hneg]
    | true =>
      obtain ⟨m₁, m₂, hsort', hrest', hbefore'⟩ := List.mergeSort_cons trans total a (l.filter p)
      have hafter {l : List α} {l₁ l₂ : List α} (h : l.mergeSort le = l₁ ++ a :: l₂) :
          ∀ b ∈ l₂, (!le a b) = false := by
        intro b hb
        have hsorted := List.pairwise_mergeSort trans total l
        rw [h, List.pairwise_append, List.pairwise_cons] at hsorted
        rw [hsorted.2.1.1 b hb]
        rfl
      have hsame : l₁.filter p ++ l₂.filter p = m₁ ++ m₂ := by
        rw [← List.filter_append, ← hrest, ih, hrest']
      obtain ⟨h₁, h₂⟩ := eq_of_append_eq_append hsame
        (fun b hb => hbefore b (List.mem_of_mem_filter hb))
        (fun b hb => hafter hsort b (List.mem_of_mem_filter hb)) hbefore' (hafter hsort')
      rw [hsort, List.filter_append, List.filter_cons_of_pos hp, List.filter_cons_of_pos hp, hsort',
        h₁, h₂]

end Sorting

/-- The function owns no records. -/
structure Function.OwnsNothing (f : Function) : Prop where
  vars : f.vars = .empty
  tables : f.tables = .empty
  labels : f.labels = .empty

instance (f : Function) : Decidable f.OwnsNothing :=
  decidable_of_iff (f.vars.records = [] ∧ f.tables.records = [] ∧ f.labels.records = [])
    ⟨fun h => ⟨Registry.ext h.1, Registry.ext h.2.1, Registry.ext h.2.2⟩,
      fun h => ⟨congrArg _ h.vars, congrArg _ h.tables, congrArg _ h.labels⟩⟩

lemma Function.OwnsNothing.of_outline {f g : Function} (h : f.OwnsNothing)
    (hfg : g.outline = f.outline) : g.OwnsNothing := by
  have hnone {α : Type} [Keyed α] {r q : Registry α} (hids : r.ids = q.ids) (hq : q = .empty) :
      r = .empty := by
    subst hq
    exact Registry.ext (List.map_eq_nil_iff.mp hids)
  obtain ⟨-, hvars, htables, hlabels⟩ := Outline.mk.inj hfg
  exact ⟨hnone hvars h.vars, hnone htables h.tables, hnone hlabels h.labels⟩

namespace Script

/-- The script without the functions that have no declaration. -/
def shown (s : Script) : Script := { s with functions := .ofList s.declared }

/-- Functions without declaration own nothing. -/
def OwnsDeclared (s : Script) : Prop :=
  ∀ f ∈ s.functions.records, f.isDeclared = false → f.OwnsNothing

variable {s t : Script} {id : RecordId} {f : Function}

@[simp] lemma records_shown (s : Script) : s.shown.functions.records = s.declared :=
  Registry.records_ofList (s.functions.nodup.sublist (List.filter_sublist.map _))

lemma mem_shown : f ∈ s.shown.functions.records ↔ f ∈ s.functions.records ∧ f.isDeclared = true := by
  rw [records_shown]
  exact List.mem_filter

lemma get?_shown : s.shown.functions.get? id = some f ↔
    s.functions.get? id = some f ∧ f.isDeclared = true := by
  rw [Registry.get?_eq_some_iff, Registry.get?_eq_some_iff, mem_shown]
  tauto

@[simp] lemma declared_shown (s : Script) : s.shown.declared = s.declared := by
  rw [declared, records_shown]
  exact List.filter_eq_self.mpr fun f hf => (List.mem_filter.mp hf).2

lemma shown_eq_self (h : ∀ f ∈ s.functions.records, f.isDeclared = true) : s.shown = s := by
  have hfunctions : s.shown.functions = s.functions := by
    refine Registry.ext ?_
    rw [records_shown]
    exact List.filter_eq_self.mpr h
  exact congrArg (fun functions => { s with functions := functions }) hfunctions

lemma sectionBytes_shown (s : Script) : s.shown.sectionBytes = s.sectionBytes := by
  rw [sectionBytes, declared_shown]
  rfl

lemma allTables_shown (h : s.OwnsDeclared) : s.shown.allTables = s.allTables := by
  have hnone (f : Function) (hf : f ∈ s.functions.records) (hdeclared : ¬ f.isDeclared = true) :
      f.tables.records.map (fun t => ((⟨.function f.id, t.id⟩ : TableRef), t)) = [] := by
    rw [(h f hf (Bool.eq_false_iff.mpr hdeclared)).tables]
    rfl
  have hfunctions (fs : List Function) (hfs : ∀ f ∈ fs, f ∈ s.functions.records) :
      ((fs.filter Function.isDeclared).flatMap fun f =>
        f.tables.records.map fun t => ((⟨.function f.id, t.id⟩ : TableRef), t)) =
      fs.flatMap fun f => f.tables.records.map fun t => (⟨.function f.id, t.id⟩, t) := by
    induction fs with
    | nil => rfl
    | cons f fs ih =>
      obtain ⟨hf, hfs⟩ := List.forall_mem_cons.mp hfs
      by_cases hdeclared : f.isDeclared = true
      · rw [List.filter_cons_of_pos hdeclared, List.flatMap_cons, List.flatMap_cons, ih hfs]
      · rw [List.filter_cons_of_neg hdeclared, List.flatMap_cons, hnone f hf hdeclared,
          List.nil_append, ih hfs]
  rw [allTables, allTables, records_shown]
  exact congrArg _ (hfunctions _ fun _ hf => hf)

lemma schedule_shown (h : s.OwnsDeclared) {p : Scheduled → Bool}
    (hfunctions : ∀ f ∈ s.functions.records, p (.ofFunction f) = f.isDeclared)
    (htables : ∀ entry ∈ s.allTables, p (.ofTable entry) = true) :
    s.shown.schedule = s.schedule.filter p := by
  have hall : (s.allTables.map Scheduled.ofTable).filter p = s.allTables.map Scheduled.ofTable := by
    refine List.filter_eq_self.mpr fun scheduled hs => ?_
    obtain ⟨entry, hentry, rfl⟩ := List.mem_map.mp hs
    exact htables entry hentry
  have hshown : (s.functions.records.map Scheduled.ofFunction).filter p =
      s.declared.map Scheduled.ofFunction := by
    rw [List.filter_map, declared]
    exact congrArg _ (List.filter_congr hfunctions)
  rw [schedule, schedule, filter_mergeSort Scheduled.le_trans Scheduled.le_total, List.filter_append,
    hall, hshown, allTables_shown h, records_shown]

lemma SameOutline.shown (h : s.SameOutline t)
    (hdeclared : ∀ id, (t.functions.get? id).map Function.isDeclared =
      (s.functions.get? id).map Function.isDeclared) : s.shown.SameOutline t.shown := by
  refine ⟨h.imports, fun id => ?_, h.vars, h.tables⟩
  have hget (s : Script) : s.shown.functions.get? id =
      (s.functions.get? id).filter Function.isDeclared := by
    refine Option.ext fun f => ?_
    rw [get?_shown, Option.filter_eq_some_iff]
  have houtline := h.functions id
  have hsame := hdeclared id
  rw [hget, hget]
  revert houtline hsame
  generalize s.functions.get? id = before, t.functions.get? id = behind
  intro houtline hsame
  cases before with
  | none => cases behind <;> simp_all
  | some f =>
    cases behind with
    | none => simp_all
    | some g =>
      rw [Option.map_some, Option.map_some, Option.some.injEq] at houtline hsame
      cases hf : f.isDeclared with
      | false => simp [Option.filter, hf, hsame]
      | true => simp [Option.filter, hf, hsame, houtline]

end Script

end ScriptContainer
