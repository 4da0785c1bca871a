import ScriptContainer.Proofs.Dressing
import ScriptContainer.Proofs.Outlines

/-!
# What building retains

Building gives places to functions and tables, counts the elements of tables, and sets targets and
addresses. It leaves everything else of a script as it was, ids and names among them.
-/

namespace ScriptContainer

/-- What building leaves as it was of a function. -/
structure Function.Retains (f g : Function) : Prop where
  outline : g.outline = f.outline
  name : g.name = f.name
  isDeclared : g.isDeclared = f.isDeclared
  vars : g.vars = f.vars
  tables : g.tables.records.map Table.name = f.tables.records.map Table.name
  labels : g.labels.records.map Label.name = f.labels.records.map Label.name
  code : untargetedCode g.code = untargetedCode f.code

namespace Function.Retains

variable {f g h : Function}

lemma trans (hfg : f.Retains g) (hgh : g.Retains h) : f.Retains h :=
  ⟨hgh.outline.trans hfg.outline, hgh.name.trans hfg.name, hgh.isDeclared.trans hfg.isDeclared,
    hgh.vars.trans hfg.vars, hgh.tables.trans hfg.tables, hgh.labels.trans hfg.labels,
    hgh.code.trans hfg.code⟩

lemma symm (h : f.Retains g) : g.Retains f :=
  ⟨h.outline.symm, h.name.symm, h.isDeclared.symm, h.vars.symm, h.tables.symm, h.labels.symm,
    h.code.symm⟩

lemma settle (plots : List Plot) (f : Function) : f.Retains (f.settle plots) := by
  unfold Function.settle
  split <;> exact ⟨rfl, rfl, rfl, rfl, rfl, rfl, rfl⟩

lemma settleTables (starts : List (TableRef × Nat)) (f : Function) :
    f.Retains (f.settleTables starts) := by
  have hids : (f.settleTables starts).tables.ids = f.tables.ids := by
    rw [Function.settleTables, Registry.ids_map]
  refine ⟨?_, rfl, rfl, rfl, ?_, rfl, rfl⟩
  · unfold Function.outline
    rw [hids]
    rfl
  · rw [Function.settleTables, Registry.records_map, List.map_map]
    refine List.map_congr_left fun t _ => ?_
    unfold Function.comp Table.settleIn
    split <;> rfl

lemma of_untargeted (h : g.untargeted = f.untargeted) : f.Retains g := by
  have hlabels (f : Function) : f.untargeted.labels.ids = f.labels.ids := by
    rw [untargeted, unaddressedLabels, Registry.ids_map]
  have hnames (f : Function) :
      f.untargeted.labels.records.map Label.name = f.labels.records.map Label.name := by
    rw [untargeted, unaddressedLabels, Registry.records_map, List.map_map]
    rfl
  have houtline (f : Function) : f.untargeted.outline = f.outline := by
    unfold Function.outline
    rw [hlabels]
    rfl
  have hfield {α : Type} (field : Function → α) : field g.untargeted = field f.untargeted :=
    congrArg field h
  refine ⟨?_, hfield Function.name, hfield Function.isDeclared, hfield Function.vars,
    hfield fun f => f.tables.records.map Table.name, ?_, hfield Function.code⟩
  · rw [← houtline g, h, houtline]
  · rw [← hnames g, h, hnames]

lemma exists_instruction (h : f.Retains g) {j : Instruction .bound} (hj : j ∈ g.code) :
    ∃ i ∈ f.code, j.untargeted = i.untargeted := by
  have hmem : j.untargeted ∈ untargetedCode f.code := by
    rw [← h.code]
    exact List.mem_map_of_mem hj
  obtain ⟨i, hi, heq⟩ := List.mem_map.mp hmem
  exact ⟨i, hi, heq.symm⟩

end Function.Retains

/-- What building leaves as it was of a table. -/
structure Table.Retains (t u : Table) : Prop where
  name : u.name = t.name
  type : u.type = t.type
  values : u.values = t.values

lemma Table.Retains.settleIn (starts : List (TableRef × Nat)) (owner : Owner) (t : Table) :
    t.Retains (t.settleIn starts owner) := by
  unfold Table.settleIn
  split <;> exact ⟨rfl, rfl, rfl⟩

/-- What building leaves as it was of a script. -/
structure Script.Retains (s t : Script) : Prop where
  imports : t.imports = s.imports
  vars : t.vars = s.vars
  tables : t.tables.ids = s.tables.ids
  functions : List.Forall₂ Function.Retains s.functions.records t.functions.records
  allTables : List.Forall₂ (fun entry other : TableRef × Table =>
    other.1 = entry.1 ∧ entry.2.Retains other.2) s.allTables t.allTables

namespace Script

variable {s t u after : Script} {roots : List Root} {stop : Nat}

namespace Retains

lemma symm (h : s.Retains t) : t.Retains s := by
  refine ⟨h.imports.symm, h.vars.symm, h.tables.symm, h.functions.flip.imp fun _ _ h => h.symm,
    h.allTables.flip.imp fun _ _ h => ?_⟩
  exact ⟨h.1.symm, h.2.name.symm, h.2.type.symm, h.2.values.symm⟩

lemma trans (hst : s.Retains t) (htu : t.Retains u) : s.Retains u := by
  refine ⟨htu.imports.trans hst.imports, htu.vars.trans hst.vars, htu.tables.trans hst.tables,
    forall₂_trans (fun _ _ _ => .trans) hst.functions htu.functions, ?_⟩
  refine forall₂_trans (fun _ _ _ hxy hyz => ⟨hyz.1.trans hxy.1, ?_⟩) hst.allTables htu.allTables
  exact ⟨hyz.2.name.trans hxy.2.name, hyz.2.type.trans hxy.2.type, hyz.2.values.trans hxy.2.values⟩

lemma of_untargeted (h : t.untargeted = s.untargeted) : s.Retains t := by
  obtain ⟨himports, hvars, htables, -⟩ := rest_eq_of_untargeted h
  refine ⟨himports, hvars, by rw [htables], ?_, ?_⟩
  · have hrecords : t.functions.records.map Function.untargeted =
        s.functions.records.map Function.untargeted :=
      congrArg (fun s : Script => s.functions.records) h
    have hall : List.Forall₂ (· = ·) (s.functions.records.map Function.untargeted)
        (t.functions.records.map Function.untargeted) := by
      rw [List.forall₂_eq_eq_eq, hrecords]
    rw [List.forall₂_map_left_iff, List.forall₂_map_right_iff] at hall
    exact hall.imp fun f g hfg => .of_untargeted hfg.symm
  · rw [← allTables_untargeted t, h, allTables_untargeted]
    exact List.forall₂_same.mpr fun _ _ => ⟨rfl, rfl, rfl, rfl⟩

lemma get? (h : s.Retains t) (id : RecordId) :
    Option.Rel Function.Retains (s.functions.get? id) (t.functions.get? id) :=
  Registry.rel_get? h.functions (fun _ _ h => congrArg Outline.id h.outline) id

lemma exists_source (h : s.Retains t) {g : Function} (hg : g ∈ t.functions.records) :
    ∃ f ∈ s.functions.records, f.Retains g :=
  forall₂_exists_left h.functions hg

lemma sameOutline (h : s.Retains t) : s.SameOutline t := by
  refine ⟨by rw [h.imports], fun id => ?_, fun id => by rw [h.vars], h.tables⟩
  have hrel := h.get? id
  revert hrel
  generalize s.functions.get? id = before, t.functions.get? id = behind
  rintro (hfg | _)
  · exact congrArg some hfg.outline
  · rfl

end Retains

lemma LaidOut.retains (h : s.LaidOut roots stop after) : s.Retains after := by
  rw [h.script]
  refine ⟨rfl, rfl, by simp only [settleTables, Registry.ids_map]; rfl, ?_, ?_⟩
  · simp only [settleTables, settleFunctions, functions_mapFunctions, Registry.records_map,
      List.forall₂_map_right_iff]
    exact List.forall₂_same.mpr fun f _ =>
      (Function.Retains.settle _ f).trans (Function.Retains.settleTables _ _)
  · rw [allTables_settleTables, allTables_settleFunctions, List.forall₂_map_right_iff]
    exact List.forall₂_same.mpr fun entry _ => ⟨rfl, Table.Retains.settleIn _ _ _⟩

end Script

end ScriptContainer
