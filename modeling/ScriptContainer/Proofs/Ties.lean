import Mathlib.Data.List.Perm.Basic
import Mathlib.Tactic.Common

/-!
# Sorted lists and ties

A sorted list is determined by its elements up to the order of those between which sorting does not
decide. Two sorted lists of the same elements are therefore a series of swaps of neighbours apart.
-/

namespace ScriptContainer

variable {α : Type}

/-- A series of swaps of neighbours that `tie` relates. -/
inductive TiePerm (tie : α → α → Prop) : List α → List α → Prop where
  | nil : TiePerm tie [] []
  | cons (a : α) {l₁ l₂ : List α} : TiePerm tie l₁ l₂ → TiePerm tie (a :: l₁) (a :: l₂)
  | swap {a b : α} (l : List α) : tie a b → TiePerm tie (a :: b :: l) (b :: a :: l)
  | trans {l₁ l₂ l₃ : List α} : TiePerm tie l₁ l₂ → TiePerm tie l₂ l₃ → TiePerm tie l₁ l₃

namespace TiePerm

variable {tie : α → α → Prop}

lemma refl (l : List α) : TiePerm tie l l := by
  induction l with
  | nil => exact .nil
  | cons a l ih => exact .cons a ih

lemma move {a : α} {before : List α} (after : List α) (h : ∀ b ∈ before, tie a b) :
    TiePerm tie (a :: (before ++ after)) (before ++ a :: after) := by
  induction before with
  | nil => exact refl _
  | cons b before ih =>
    have hb : tie a b := h b (by simp)
    have hrest := ih fun c hc => h c (by simp [hc])
    exact .trans (.swap _ hb) (.cons b hrest)

/-- Sorted lists of the same elements differ in the order of ties. -/
theorem of_sorted {le : α → α → Prop} {l₁ l₂ : List α} (hp : l₁.Perm l₂) (hn : l₁.Nodup)
    (h₁ : l₁.Pairwise le) (h₂ : l₂.Pairwise le)
    (ht : ∀ a ∈ l₁, ∀ b ∈ l₁, a ≠ b → le a b → le b a → tie a b) : TiePerm tie l₁ l₂ := by
  induction l₁ generalizing l₂ with
  | nil =>
    rw [List.nil_perm] at hp
    subst hp
    exact .nil
  | cons a l₁ ih =>
    obtain ⟨before, after, rfl⟩ := List.append_of_mem (hp.subset List.mem_cons_self)
    have hrest : l₁.Perm (before ++ after) :=
      List.Perm.cons_inv (hp.trans List.perm_middle)
    rw [List.nodup_cons] at hn
    rw [List.pairwise_cons] at h₁
    rw [List.pairwise_append, List.pairwise_cons] at h₂
    obtain ⟨hbefore, ⟨-, hafter⟩, hacross⟩ := h₂
    have htie : ∀ b ∈ before, tie a b := by
      intro b hb
      have hmem : b ∈ l₁ := hrest.mem_iff.mpr (List.mem_append_left after hb)
      have hne : a ≠ b := fun h => hn.1 (h ▸ hmem)
      exact ht a (by simp) b (by simp [hmem]) hne (h₁.1 b hmem) (hacross b hb a (by simp))
    have hsorted : (before ++ after).Pairwise le := by
      rw [List.pairwise_append]
      exact ⟨hbefore, hafter, fun b hb c hc => hacross b hb c (by simp [hc])⟩
    have hswaps := ih hrest hn.2 h₁.2 hsorted
      fun b hb c hc => ht b (by simp [hb]) c (by simp [hc])
    exact .trans (.cons a hswaps) (move after htie)

lemma eq_of_forall {l₁ l₂ : List α} (h : TiePerm tie l₁ l₂)
    (hno : ∀ a ∈ l₁, ∀ b, ¬ tie a b) : l₁ = l₂ := by
  induction h with
  | nil => rfl
  | cons a _ ih => rw [ih fun b hb => hno b (by simp [hb])]
  | swap l hab => exact absurd hab (hno _ (by simp) _)
  | trans _ _ ih₁ ih₂ =>
    obtain rfl := ih₁ hno
    exact ih₂ hno

end TiePerm

end ScriptContainer
