import ScriptContainer.Proofs.Lookups
import ScriptContainer.Proofs.Resolving

/-!
# References within the declared part

Functions without declaration own nothing, so that a lookup passes them over when they are entered. A
reference to a record of the declared part is therefore found there by its number if it is found by it
in the whole script.
-/

namespace ScriptContainer

section Composing

variable {S T U : Slots} {ε : Type}

/-- One change of references after another. -/
def Slots.Change.comp (f : S.Change T (Except ε)) (g : T.Change U (Except ε)) :
    S.Change U (Except ε) where
  symbol r := f.symbol r >>= g.symbol
  var r := f.var r >>= g.var
  table r := f.table r >>= g.table
  label r := f.label r >>= g.label
  callee r := f.callee r >>= g.callee
  imported r := f.imported r >>= g.imported
  function r := f.function r >>= g.function
  operator r := f.operator r >>= g.operator

lemma Slots.Change.then_comp (f : S.Change T (Except Error)) (g : T.Change U (Except Error)) :
    f.Then g (f.comp g) := by
  constructor <;>
    intro r w h <;>
    simp only [comp, h, ok_bind]

end Composing

lemma Function.OwnsNothing.findSymbol {f : Function} (h : f.OwnsNothing) (key : Key) :
    f.findSymbol key = none := by
  refine Lacks.findSymbol ⟨?_, ?_, ?_⟩
  · rw [h.labels]
    exact fun _ hl => absurd hl List.not_mem_nil
  · rw [h.vars]
    exact fun _ hv => absurd hv List.not_mem_nil
  · rw [h.tables]
    exact fun _ ht => absurd ht List.not_mem_nil

namespace Script

/-- References that stay as they are, as long as their records are in the script. -/
def holding (s : Script) : Slots.Change .bound .bound (Except Error) where
  symbol symbol := (fun _ => symbol) <$> s.check symbol
  var ref := (fun _ => ref) <$> s.check (.variable ref)
  table ref := (fun _ => ref) <$> s.check (.table ref)
  label ref := (fun _ => ref) <$> s.check (.label ref)
  callee callee := (fun _ => callee) <$> s.check callee.toSymbol
  imported id := (fun _ => id) <$> s.check (.imported id)
  function id := (fun _ => id) <$> s.check (.function id)
  operator := .ok

/-- All references of the instruction are records of the script. -/
def RefersWithin (s : Script) (i : Instruction .bound) : Prop := i.change s.holding = .ok i

/-- No instruction refers to a function without declaration. -/
def RefersToDeclared (s : Script) : Prop :=
  ∀ f ∈ s.functions.records, ∀ i ∈ f.code, s.shown.RefersWithin i

variable {s : Script} {scopes : List RecordId} {i : Instruction .bound}

lemma holding_eq_ok {α : Type} {symbol : Symbol} {ref w : α}
    (h : (fun _ => ref) <$> s.check symbol = .ok w) : s.has symbol = true ∧ w = ref := by
  obtain ⟨id, hid, rfl⟩ := map_eq_ok_iff.mp h
  unfold check at hid
  split at hid
  · exact ⟨‹_›, rfl⟩
  · cases hid

lemma firstIn_shown (howns : s.OwnsDeclared) {α : Type} {find : Function → Option α}
    (hfind : ∀ f : Function, f.OwnsNothing → find f = none) (scopes : List RecordId) :
    firstIn (s.shown.under scopes).scopes find = firstIn (s.under scopes).scopes find := by
  have hone (id : RecordId) :
      (s.shown.functions.get? id).bind find = (s.functions.get? id).bind find := by
    cases hf : s.functions.get? id with
    | none =>
      have hnone : s.shown.functions.get? id = none := by
        refine Option.eq_none_iff_forall_not_mem.mpr fun f hf' => ?_
        rw [(get?_shown.mp hf').1] at hf
        cases hf
      rw [hnone]
    | some f =>
      cases hdeclared : f.isDeclared with
      | true => rw [get?_shown.mpr ⟨hf, hdeclared⟩]
      | false =>
        have hnone : s.shown.functions.get? id = none := by
          refine Option.eq_none_iff_forall_not_mem.mpr fun g hg => ?_
          obtain ⟨hg, hg'⟩ := get?_shown.mp hg
          obtain rfl := Option.some.inj (hf.symm.trans hg)
          rw [hdeclared] at hg'
          cases hg'
        rw [hnone, Option.bind_some, hfind f (howns f (Registry.mem_of_get? hf) hdeclared)]
        rfl
  have hscopes (t : Script) : firstIn (t.under scopes).scopes find =
      scopes.reverse.findSome? fun id => (t.functions.get? id).bind find := by
    rw [firstIn, under, ← List.filterMap_reverse]
    generalize scopes.reverse = ids
    induction ids with
    | nil => rfl
    | cons id ids ih =>
      rw [List.findSome?_cons, ← ih]
      cases hget : t.functions.get? id with
      | none => rw [List.filterMap_cons_none hget]; rfl
      | some f => rw [List.filterMap_cons_some hget, List.findSome?_cons]; rfl
  rw [hscopes, hscopes]
  exact congrArg (fun find => scopes.reverse.findSome? find) (funext hone)

lemma or_eq_some_of {α : Type} {first rest rest' : Option α} {x : α} (h : first.or rest = some x)
    (hrest : rest = some x → rest' = some x) : first.or rest' = some x := by
  cases first with
  | none => exact hrest h
  | some y => exact h

lemma findFunction_shown {id found : RecordId} (h : s.findFunction (.id id) = some found)
    (hhas : s.shown.has (.function found) = true) : s.shown.findFunction (.id id) = some found := by
  obtain ⟨f, hf, rfl⟩ := Option.map_eq_some_iff.mp h
  obtain rfl : f.id = id := Registry.id_of_get? hf
  rw [has, Registry.contains_eq_isSome, Option.isSome_iff_exists] at hhas
  obtain ⟨g, hg⟩ := hhas
  have hid : g.id = f.id := Registry.id_of_get? hg
  change (s.shown.functions.get? f.id).map Function.id = _
  rw [hg, Option.map_some, hid]

lemma findFunction_shown_none {id : RecordId} (h : s.findFunction (.id id) = none) :
    s.shown.findFunction (.id id) = none := by
  have hnone : s.functions.get? id = none := Option.map_eq_none_iff.mp h
  refine Option.map_eq_none_iff.mpr (Option.eq_none_iff_forall_not_mem.mpr fun f hf => ?_)
  rw [(get?_shown.mp hf).1] at hnone
  cases hnone

lemma findSymbol_shown {id : RecordId} {found : Symbol} (h : s.findSymbol (.id id) = some found)
    (hhas : s.shown.has found = true) : s.shown.findSymbol (.id id) = some found := by
  refine or_eq_some_of h fun h => or_eq_some_of h fun h => ?_
  cases hfunction : s.findFunction (.id id) with
  | none =>
    rw [hfunction] at h
    rw [findFunction_shown_none hfunction]
    exact h
  | some function =>
    rw [hfunction] at h
    obtain rfl := Option.some.inj h
    rw [findFunction_shown hfunction hhas]
    rfl

/-- What is found by a number in the whole script and is in the declared part is found there. -/
lemma under_then_shown (howns : s.OwnsDeclared) (scopes : List RecordId) :
    ((s.under scopes).rebinding.comp s.shown.holding).Then (.same .bound Error)
      (s.shown.under scopes).rebinding where
  symbol {r w} h := by
    obtain ⟨found, hfound, hheld⟩ := bind_eq_ok_iff.mp h
    obtain ⟨hhas, rfl⟩ := holding_eq_ok hheld
    refine (Context.orUnknown_eq_ok_iff.mpr ?_).symm
    rw [firstIn_shown howns fun f hf => hf.findSymbol _]
    exact or_eq_some_of (Context.orUnknown_eq_ok_iff.mp hfound) fun h => findSymbol_shown h hhas
  var {r w} h := by
    obtain ⟨found, hfound, hheld⟩ := bind_eq_ok_iff.mp h
    obtain ⟨-, rfl⟩ := holding_eq_ok hheld
    refine (Context.orUnknown_eq_ok_iff.mpr ?_).symm
    rw [firstIn_shown howns fun f hf => f.findVariable_eq_none (hf.findSymbol _)]
    exact Context.orUnknown_eq_ok_iff.mp hfound
  table {r w} h := by
    obtain ⟨found, hfound, hheld⟩ := bind_eq_ok_iff.mp h
    obtain ⟨-, rfl⟩ := holding_eq_ok hheld
    refine (Context.orUnknown_eq_ok_iff.mpr ?_).symm
    rw [firstIn_shown howns fun f hf => f.findTable_eq_none (hf.findSymbol _)]
    exact Context.orUnknown_eq_ok_iff.mp hfound
  label {r w} h := by
    obtain ⟨found, hfound, hheld⟩ := bind_eq_ok_iff.mp h
    obtain ⟨-, rfl⟩ := holding_eq_ok hheld
    refine (Context.orUnknown_eq_ok_iff.mpr ?_).symm
    rw [firstIn_shown howns fun f hf => f.findLabel_eq_none (hf.findSymbol _)]
    exact Context.orUnknown_eq_ok_iff.mp hfound
  callee {r w} h := by
    obtain ⟨found, hfound, hheld⟩ := bind_eq_ok_iff.mp h
    obtain ⟨hhas, rfl⟩ := holding_eq_ok hheld
    refine (Context.orUnknown_eq_ok_iff.mpr ?_).symm
    refine or_eq_some_of (Context.orUnknown_eq_ok_iff.mp hfound) fun h => ?_
    obtain ⟨id, hid, rfl⟩ := Option.map_eq_some_iff.mp h
    exact congrArg (Option.map Callee.function) (findFunction_shown hid hhas)
  imported {r w} h := by
    obtain ⟨found, hfound, hheld⟩ := bind_eq_ok_iff.mp h
    obtain ⟨-, rfl⟩ := holding_eq_ok hheld
    exact hfound.symm
  function {r w} h := by
    obtain ⟨found, hfound, hheld⟩ := bind_eq_ok_iff.mp h
    obtain ⟨hhas, rfl⟩ := holding_eq_ok hheld
    exact (Context.orUnknown_eq_ok_iff.mpr
      (findFunction_shown (Context.orUnknown_eq_ok_iff.mp hfound) hhas)).symm
  operator h := h.symm

lemma Keeps.shown (h : s.Keeps scopes i) (howns : s.OwnsDeclared) (hwithin : s.shown.RefersWithin i) :
    s.shown.Keeps scopes i := by
  have hcomp : i.change ((s.under scopes).rebinding.comp s.shown.holding) = .ok i := by
    rw [← Instruction.change_change (Slots.Change.then_comp _ _) h]
    exact hwithin
  have hsame := Instruction.change_change (under_then_shown howns scopes) hcomp
  rw [Instruction.change_same] at hsame
  exact hsame.symm

lemma KeepsReferences.shown_of_refersToDeclared {chains : Registry Chain}
    (h : s.KeepsReferences chains) (howns : s.OwnsDeclared) (hwithin : s.RefersToDeclared) :
    s.KeepsShown chains := by
  refine ⟨fun f hf chain hchain i hi => ?_, fun entry he refs hrefs ref href => ?_⟩
  · exact (h.code f hf chain hchain i hi).shown howns (hwithin f hf i hi)
  · refine Context.orUnknown_eq_ok_iff.mpr ?_
    rw [firstIn_shown howns fun f hf => f.findVariable_eq_none (hf.findSymbol _)]
    exact Context.orUnknown_eq_ok_iff.mp (h.tables entry he refs hrefs ref href)

end Script

end ScriptContainer
