import Mathlib.Data.List.Induction
import ScriptContainer.Document.ScopeChain
import ScriptContainer.Proofs.Keeping

/-!
# Scope chains of a script

Every function has a chain, and the chains depend on nothing but the ids and the flags of the
functions, their order, and what they start.
-/

namespace ScriptContainer

namespace Script

variable {s : Script} {spawns : Function → List RecordId}

section Mapped

variable {t : Script} {g : Function → Function} (hg : ∀ f, (g f).id = f.id)
  {spawns' : Function → List RecordId}

lemma chainsFrom_map (ht : t.functions = s.functions.map g hg)
    (hspawns : ∀ f ∈ s.functions.records, spawns' (g f) = spawns f) (depth : Nat)
    (outer : List RecordId) (chains : Registry Chain) (id : RecordId) :
    t.chainsFrom spawns' depth outer chains id = s.chainsFrom spawns depth outer chains id := by
  induction depth generalizing outer chains id with
  | zero => rfl
  | succ depth ih =>
    rw [chainsFrom, chainsFrom, ht, Registry.get?_map]
    cases hf : s.functions.get? id with
    | none => rfl
    | some f =>
      dsimp only [Option.map_some]
      rw [hspawns f (Registry.mem_of_get? hf)]
      simp only [ih]

/-- Functions with the same ids, flags and spawns have the same chains. -/
theorem scopeChains_map (ht : t.functions = s.functions.map g hg)
    (hinline : ∀ f, (g f).isInline = f.isInline)
    (hspawns : ∀ f ∈ s.functions.records, spawns' (g f) = spawns f) :
    t.scopeChains spawns' = s.scopeChains spawns := by
  have horder : t.layoutOrder = s.layoutOrder.map g := by
    unfold layoutOrder
    dsimp only
    rw [ht, Registry.records_map, ← List.map_reverse, List.filter_map, List.filter_map,
      List.map_append]
    simp only [Function.comp_def, hinline]
  unfold scopeChains
  rw [horder, List.foldl_map, ht, Registry.size_map]
  simp only [hg, chainsFrom_map hg ht hspawns]

end Mapped

section Covering

variable {chains : Registry Chain} {id other : RecordId}

lemma contains_chains_insert (chain : Chain)
    (h : id = chain.function ∨ chains.contains id = true) :
    (chains.insert chain).contains id = true := by
  rw [Registry.contains_eq_isSome] at h ⊢
  rw [Registry.get?_insert]
  by_cases hid : id = Keyed.id chain
  · rw [if_pos hid]
    rfl
  · rw [if_neg hid]
    exact h.resolve_left hid

/-- A run of steps that lose no chain loses none. -/
lemma contains_foldl {α : Type} {step : Registry Chain → α → Registry Chain} {xs : List α}
    (hstep : ∀ chains x, chains.contains id = true → (step chains x).contains id = true)
    (h : chains.contains id = true) : (xs.foldl step chains).contains id = true := by
  induction xs generalizing chains with
  | nil => exact h
  | cons x xs ih => exact ih (hstep chains x h)

lemma contains_chainsFrom (depth : Nat) (outer : List RecordId)
    (h : chains.contains other = true) :
    (s.chainsFrom spawns depth outer chains id).contains other = true := by
  induction depth generalizing outer chains id with
  | zero => exact h
  | succ depth ih =>
    rw [chainsFrom]
    split
    · exact h
    · refine contains_foldl (fun chains callee hchains => ?_) (contains_chains_insert _ (.inr h))
      split
      · exact hchains
      · exact ih _ hchains

lemma contains_chainsFrom_self (depth : Nat) (outer : List RecordId) {f : Function}
    (hf : s.functions.get? id = some f) :
    (s.chainsFrom spawns (depth + 1) outer chains id).contains id = true := by
  rw [chainsFrom, hf]
  refine contains_foldl (fun chains callee hchains => ?_) (contains_chains_insert _ (.inl rfl))
  split
  · exact hchains
  · exact contains_chainsFrom _ _ hchains

theorem exists_chain (spawns : Function → List RecordId) {f : Function}
    (hf : f ∈ s.functions.records) :
    ∃ chain, (s.scopeChains spawns).get? f.id = some chain := by
  have hget : s.functions.get? f.id = some f := s.functions.get?_of_mem hf
  have hmem : f.id ∈ s.layoutOrder.map Function.id := mem_layoutOrder.mpr (List.mem_map_of_mem hf)
  obtain ⟨g, hg, hid⟩ := List.mem_map.mp hmem
  obtain ⟨before, after, horder⟩ := List.append_of_mem hg
  suffices h : (s.scopeChains spawns).contains f.id = true by
    rwa [Registry.contains_eq_isSome, Option.isSome_iff_exists] at h
  unfold scopeChains
  rw [horder, List.foldl_append, List.foldl_cons, hid]
  refine contains_foldl (fun chains g hchains => ?_) ?_
  · split
    · exact hchains
    · exact contains_chainsFrom _ _ hchains
  · split
    case isTrue h => exact h
    case isFalse => exact contains_chainsFrom_self _ _ hget

end Covering

end Script

lemma Context.ofChain_eq_under (s : Script) (scopes : List RecordId) :
    Context.ofChain s scopes = s.under scopes := by
  induction scopes using List.reverseRecOn with
  | nil => rfl
  | append_singleton scopes id ih =>
    rw [ofChain] at ih
    rw [ofChain, List.foldl_append, ih, List.foldl_cons, List.foldl_nil]
    cases hf : s.functions.get? id with
    | some f => exact (Script.under_append hf).symm
    | none => simp only [Script.under, List.filterMap_append, List.filterMap_cons, hf,
        List.filterMap_nil, List.append_nil]

lemma Script.KeepsReferences.change_ofCode {s : Script}
    {spawns : Function → List RecordId} (h : s.KeepsReferences (s.scopeChains spawns)) {f : Function}
    (hf : f ∈ s.functions.records) {i : Instruction .bound} (hi : i ∈ f.code) :
    i.change (Context.ofCode s (s.scopeChains spawns) f).rebinding = .ok i := by
  obtain ⟨chain, hchain⟩ := Script.exists_chain spawns hf
  rw [Context.ofCode, hchain]
  dsimp only
  rw [Context.ofChain_eq_under]
  exact h.code f hf chain hchain i hi

end ScriptContainer
