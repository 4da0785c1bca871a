import Mathlib.Data.List.Forall2
import Mathlib.Tactic.Common

/-!
# Runs that may fail

Reading, laying out and editing all move a state and may fail. This file splits a run of such a
program into the runs of its parts.
-/

namespace ScriptContainer

variable {ε σ α β : Type}

lemma bind_of_ok {x : EStateM ε σ α} {f : α → EStateM ε σ β} {s t : σ} {a : α}
    (h : x s = .ok a t) : (x >>= f) s = f a t := by
  change EStateM.bind x f s = _
  rw [EStateM.bind, h]

lemma bind_of_error {x : EStateM ε σ α} {f : α → EStateM ε σ β} {s t : σ} {e : ε}
    (h : x s = .error e t) : (x >>= f) s = .error e t := by
  change EStateM.bind x f s = _
  rw [EStateM.bind, h]

lemma run_bind_eq_ok_iff {x : EStateM ε σ α} {f : α → EStateM ε σ β} {s u : σ} {b : β} :
    (x >>= f) s = .ok b u ↔ ∃ a t, x s = .ok a t ∧ f a t = .ok b u := by
  cases h : x s with
  | ok a t =>
    rw [bind_of_ok h]
    constructor
    · exact fun hf => ⟨a, t, rfl, hf⟩
    · rintro ⟨_, _, ⟨⟩, hf⟩
      exact hf
  | error e t =>
    rw [bind_of_error h]
    constructor
    · rintro ⟨⟩
    · rintro ⟨_, _, ⟨⟩, _⟩

lemma map_of_ok {x : EStateM ε σ α} {f : α → β} {s t : σ} {a : α}
    (h : x s = .ok a t) : (f <$> x) s = .ok (f a) t := by
  change EStateM.map f x s = _
  rw [EStateM.map, h]

lemma map_of_error {x : EStateM ε σ α} {f : α → β} {s t : σ} {e : ε}
    (h : x s = .error e t) : (f <$> x) s = .error e t := by
  change EStateM.map f x s = _
  rw [EStateM.map, h]

/-- What holds of a run: of the answer with the state after it, or of the failure. -/
def Outcome (run : EStateM.Result ε σ α) (good : α → σ → Prop) (bad : ε → Prop) : Prop :=
  match run with
  | .ok a t => good a t
  | .error e _ => bad e

namespace Outcome

variable {good : α → σ → Prop} {bad : ε → Prop} {x : EStateM ε σ α} {s : σ}

lemma bind {f : α → EStateM ε σ β} {good' : β → σ → Prop}
    (hx : Outcome (x s) good bad) (hf : ∀ a t, good a t → Outcome (f a t) good' bad) :
    Outcome ((x >>= f) s) good' bad := by
  cases h : x s with
  | ok a t =>
    rw [bind_of_ok h]
    rw [h] at hx
    exact hf a t hx
  | error e t =>
    rw [bind_of_error h]
    rw [h] at hx
    exact hx

lemma mono {run : EStateM.Result ε σ α} {good' : α → σ → Prop} {bad' : ε → Prop}
    (h : Outcome run good bad) (hg : ∀ a t, good a t → good' a t) (hb : ∀ e, bad e → bad' e) :
    Outcome run good' bad' := by
  cases run with
  | ok a t => exact hg a t h
  | error e t => exact hb e h

lemma of_ok {a : α} {t : σ} (h : Outcome (x s) good bad) (hx : x s = .ok a t) : good a t := by
  rw [hx] at h
  exact h

lemma of_error {e : ε} {t : σ} (h : Outcome (x s) good bad) (hx : x s = .error e t) : bad e := by
  rw [hx] at h
  exact h

end Outcome

/-- Every answer of the run is good, from whatever state it starts. -/
def Answers (run : EStateM ε σ α) (good : α → Prop) : Prop :=
  ∀ s, Outcome (run s) (fun a _ => good a) fun _ => True

namespace Answers

variable {run : EStateM ε σ α} {good : α → Prop}

lemma of_ok (h : Answers run good) {s t : σ} {a : α} (hrun : run s = .ok a t) : good a :=
  (h s).of_ok hrun

lemma mono {good' : α → Prop} (h : Answers run good) (hg : ∀ a, good a → good' a) :
    Answers run good' :=
  fun s => (h s).mono (fun a _ => hg a) fun _ he => he

lemma any (run : EStateM ε σ α) : Answers run fun _ => True := by
  intro s
  cases h : run s with
  | ok a t => trivial
  | error e t => trivial

lemma pure {a : α} (h : good a) : Answers (Pure.pure a : EStateM ε σ α) good := fun _ => h

lemma throw (e : ε) : Answers (throw e : EStateM ε σ α) good := fun _ => trivial

lemma bind {next : α → EStateM ε σ β} {good' : β → Prop} (h : Answers run good)
    (hnext : ∀ a, good a → Answers (next a) good') : Answers (run >>= next) good' :=
  fun s => (h s).bind fun a t ha => hnext a ha t

lemma after {next : α → EStateM ε σ β} {good' : β → Prop} (h : ∀ a, Answers (next a) good') :
    Answers (run >>= next) good' :=
  (any run).bind fun a _ => h a

lemma map {f : α → β} {good' : β → Prop} (h : Answers run good)
    (hf : ∀ a, good a → good' (f a)) : Answers (f <$> run) good' := by
  intro s
  cases hrun : run s with
  | ok a t =>
    rw [map_of_ok hrun]
    exact hf a (h.of_ok hrun)
  | error e t =>
    rw [map_of_error hrun]
    trivial

end Answers

/-- The state in which a run stops, whether it succeeds or fails. -/
def stateAfter (run : EStateM.Result ε σ α) : σ :=
  match run with
  | .ok _ t => t
  | .error _ t => t

/-- The failure of a run that fails. -/
def failure? (run : EStateM.Result ε σ α) : Option ε :=
  match run with
  | .ok _ _ => none
  | .error e _ => some e

lemma failure?_eq_some_iff {run : EStateM.Result ε σ α} {e : ε} :
    failure? run = some e ↔ ∃ t, run = .error e t := by
  cases run <;> simp [failure?]

/-- What holds of the state before the run holds where it stops, also if it fails. -/
def Upholds (inv : σ → Prop) (run : EStateM ε σ α) : Prop :=
  ∀ s, inv s → inv (stateAfter (run s))

namespace Upholds

variable {inv : σ → Prop} {run : EStateM ε σ α}

lemma pure (a : α) : Upholds inv (Pure.pure a : EStateM ε σ α) := fun _ hs => hs

lemma throw (e : ε) : Upholds inv (throw e : EStateM ε σ α) := fun _ hs => hs

lemma bind {next : α → EStateM ε σ β} (h : Upholds inv run) (hnext : ∀ a, Upholds inv (next a)) :
    Upholds inv (run >>= next) := by
  intro s hs
  have hrun := h s hs
  cases hx : run s with
  | ok a t =>
    rw [bind_of_ok hx]
    rw [hx] at hrun
    exact hnext a t hrun
  | error e t =>
    rw [bind_of_error hx]
    rw [hx] at hrun
    exact hrun

/-- What follows may look at the state, of which the invariant holds. -/
lemma get_bind {next : σ → EStateM ε σ β} (h : ∀ s, inv s → Upholds inv (next s)) :
    Upholds inv (get >>= next) := fun s hs => h s hs s hs

lemma set {s : σ} (hs : inv s) : Upholds inv (set s : EStateM ε σ PUnit) := fun _ _ => hs

lemma modify {f : σ → σ} (h : ∀ s, inv s → inv (f s)) :
    Upholds inv (modify f : EStateM ε σ PUnit) := h

lemma forM {f : α → EStateM ε σ PUnit} {xs : List α} (h : ∀ x ∈ xs, Upholds inv (f x)) :
    Upholds inv (xs.forM f) := by
  induction xs with
  | nil => exact pure ()
  | cons x xs ih =>
    rw [List.forall_mem_cons] at h
    exact h.1.bind fun _ => ih h.2

end Upholds

section Except

variable {x : Except ε α} {e : ε} {b : β}

lemma ok_bind (a : α) (f : α → Except ε β) : (Except.ok a >>= f) = f a := rfl

lemma bind_eq_ok_iff {f : α → Except ε β} :
    (x >>= f) = .ok b ↔ ∃ a, x = .ok a ∧ f a = .ok b := by
  cases x with
  | ok a => simp [Bind.bind, Except.bind]
  | error e => simp [Bind.bind, Except.bind]

lemma bind_eq_error_iff {f : α → Except ε β} :
    (x >>= f) = .error e ↔ x = .error e ∨ ∃ a, x = .ok a ∧ f a = .error e := by
  cases x with
  | ok a => simp [Bind.bind, Except.bind]
  | error e => simp [Bind.bind, Except.bind]

lemma map_eq_ok_iff {f : α → β} : f <$> x = .ok b ↔ ∃ a, x = .ok a ∧ f a = b := by
  cases x with
  | ok a => simp [Functor.map, Except.map]
  | error e => simp [Functor.map, Except.map]

lemma map_eq_error_iff {f : α → β} : f <$> x = .error e ↔ x = .error e := by
  cases x with
  | ok a => simp [Functor.map, Except.map]
  | error e => simp [Functor.map, Except.map]

lemma pure_eq_ok_iff {a a' : α} : (pure a : Except ε α) = .ok a' ↔ a = a' := by
  change Except.ok a = .ok a' ↔ _
  simp

lemma mapM_ok (xs : List α) : xs.mapM (fun x => (.ok x : Except ε α)) = .ok xs := by
  have hpure := List.mapM_pure (m := Except ε) (l := xs) (f := fun x => x)
  rwa [List.map_id'] at hpure

lemma mapM_eq_ok_iff {f : α → Except ε β} {xs : List α} {ys : List β} :
    xs.mapM f = .ok ys ↔ List.Forall₂ (fun a b => f a = .ok b) xs ys := by
  induction xs generalizing ys with
  | nil => rw [List.mapM_nil, pure_eq_ok_iff, List.forall₂_nil_left_iff, eq_comm]
  | cons a xs ih =>
    simp only [List.mapM_cons, bind_eq_ok_iff, pure_eq_ok_iff, List.forall₂_cons_left_iff, ih]
    constructor
    · rintro ⟨b, hb, bs, hbs, rfl⟩
      exact ⟨b, bs, hb, hbs, rfl⟩
    · rintro ⟨b, bs, hb, hbs, rfl⟩
      exact ⟨b, hb, bs, hbs, rfl⟩

lemma forall₂_exists_left {R : α → β → Prop} {xs : List α} {ys : List β} (h : List.Forall₂ R xs ys)
    {y : β} (hy : y ∈ ys) : ∃ x ∈ xs, R x y := by
  induction h with
  | nil => cases hy
  | cons hxy _ ih =>
    rcases List.mem_cons.mp hy with rfl | hy
    · exact ⟨_, List.mem_cons_self, hxy⟩
    · obtain ⟨x, hx, hxy⟩ := ih hy
      exact ⟨x, List.mem_cons_of_mem _ hx, hxy⟩

lemma forall₂_exists_right {R : α → β → Prop} {xs : List α} {ys : List β}
    (h : List.Forall₂ R xs ys) {x : α} (hx : x ∈ xs) : ∃ y ∈ ys, R x y :=
  forall₂_exists_left h.flip hx

lemma forall₂_trans {R S T : α → α → Prop} (hrst : ∀ x y z, R x y → S y z → T x z)
    {xs ys zs : List α} (h : List.Forall₂ R xs ys) (h' : List.Forall₂ S ys zs) :
    List.Forall₂ T xs zs := by
  induction h generalizing zs with
  | nil =>
    cases h'
    exact .nil
  | cons hxy _ ih =>
    cases h' with
    | cons hyz h' => exact .cons (hrst _ _ _ hxy hyz) (ih h')

lemma map_eq_map_of_forall₂ {γ : Type} {f : α → γ} {g : β → γ} {xs : List α} {ys : List β}
    (h : List.Forall₂ (fun x y => f x = g y) xs ys) : xs.map f = ys.map g := by
  induction h with
  | nil => rfl
  | cons hxy _ ih => rw [List.map_cons, List.map_cons, hxy, ih]

lemma exists_of_mem_mapM {f : α → Except ε β} {xs : List α} {ys : List β} (h : xs.mapM f = .ok ys)
    {y : β} (hy : y ∈ ys) : ∃ x ∈ xs, f x = .ok y :=
  forall₂_exists_left (mapM_eq_ok_iff.mp h) hy

lemma mapM_eq_error {f : α → Except ε β} {xs : List α} (h : xs.mapM f = .error e) :
    ∃ a ∈ xs, f a = .error e := by
  induction xs with
  | nil => cases h
  | cons a xs ih =>
    simp only [List.mapM_cons, bind_eq_error_iff] at h
    rcases h with h | ⟨b, -, h | ⟨bs, -, h⟩⟩
    · exact ⟨a, by simp, h⟩
    · obtain ⟨a', ha', h⟩ := ih h
      exact ⟨a', by simp [ha'], h⟩
    · cases h

end Except

/-- What holds of a result: of the answer, or of the failure. -/
def Yields (result : Except ε α) (good : α → Prop) (bad : ε → Prop) : Prop :=
  match result with
  | .ok a => good a
  | .error e => bad e

namespace Yields

variable {good : α → Prop} {bad : ε → Prop}

lemma of_ok {result : Except ε α} {a : α} (h : Yields result good bad) (hr : result = .ok a) :
    good a := by
  rw [hr] at h
  exact h

lemma of_error {result : Except ε α} {e : ε} (h : Yields result good bad)
    (hr : result = .error e) : bad e := by
  rw [hr] at h
  exact h

end Yields

/-- What decides a result: the answer where the condition holds, and a failure elsewhere. -/
def YieldsIf (result : Except ε α) (answer : α) (condition : Prop) (bad : ε → Prop) : Prop :=
  match result with
  | .ok a => a = answer ∧ condition
  | .error e => bad e ∧ ¬ condition

namespace YieldsIf

variable {condition condition' : Prop} {bad : ε → Prop} {result : Except ε α} {answer a : α}

lemma of_ok (h : YieldsIf result answer condition bad) (hr : result = .ok a) :
    a = answer ∧ condition := by
  rw [hr] at h
  exact h

lemma of_error {e : ε} (h : YieldsIf result answer condition bad) (hr : result = .error e) :
    bad e := by
  rw [hr] at h
  exact h.1

lemma eq_ok (h : YieldsIf result answer condition bad) (hc : condition) : result = .ok answer := by
  cases result with
  | ok a => rw [h.1]
  | error e => exact absurd hc h.2

lemma mono {bad' : ε → Prop} (h : YieldsIf result answer condition bad) (hb : ∀ e, bad e → bad' e) :
    YieldsIf result answer condition bad' := by
  cases result with
  | ok a => exact h
  | error e => exact ⟨hb e h.1, h.2⟩

lemma congr {answer' : α} (h : YieldsIf result answer condition bad) (ha : answer = answer')
    (hc : condition ↔ condition') : YieldsIf result answer' condition' bad := by
  rwa [← ha, ← propext hc]

lemma andThen {f : α → Except ε β} {answer' : β} (hx : YieldsIf result answer condition bad)
    (hf : condition → YieldsIf (f answer) answer' condition' bad) :
    YieldsIf (result >>= f) answer' (condition ∧ condition') bad := by
  cases result with
  | error e => exact ⟨hx.1, fun h => hx.2 h.1⟩
  | ok a =>
    obtain ⟨rfl, hc⟩ := hx
    have hthen := hf hc
    rw [ok_bind]
    cases hrun : f a with
    | error e =>
      rw [hrun] at hthen
      exact ⟨hthen.1, fun h => hthen.2 h.2⟩
    | ok b =>
      rw [hrun] at hthen
      exact ⟨hthen.1, hc, hthen.2⟩

lemma andReturn {f : α → Except ε β} {answer' : β} (hx : YieldsIf result answer condition bad)
    (hf : condition → f answer = .ok answer') :
    YieldsIf (result >>= f) answer' condition bad := by
  cases result with
  | error e => exact hx
  | ok a =>
    obtain ⟨rfl, hc⟩ := hx
    rw [ok_bind, hf hc]
    exact ⟨rfl, hc⟩

variable {x : StateT σ (Except ε) α} {f : α → StateT σ (Except ε) β} {s t : σ} {after : β × σ}

lemma bind (hx : YieldsIf (x s) (a, t) condition bad)
    (hf : condition → YieldsIf (f a t) after condition' bad) :
    YieldsIf ((x >>= f) s) after (condition ∧ condition') bad := by
  change YieldsIf (x s >>= fun next => f next.1 next.2) _ _ _
  exact andThen hx hf

lemma bindReturn (hx : YieldsIf (x s) (a, t) condition bad)
    (hf : condition → f a t = .ok after) : YieldsIf ((x >>= f) s) after condition bad := by
  change YieldsIf (x s >>= fun next => f next.1 next.2) _ _ _
  exact andReturn hx hf

end YieldsIf

lemma stateT_bind_of_error {x : StateT σ (Except ε) α} {f : α → StateT σ (Except ε) β} {s : σ}
    {e : ε} (h : x s = .error e) : (x >>= f) s = .error e := by
  change (x s >>= fun at' => f at'.1 at'.2) = _
  rw [h]
  rfl

lemma stateT_bind_of_ok {x : StateT σ (Except ε) α} {f : α → StateT σ (Except ε) β} {s t : σ}
    {a : α} (h : x s = .ok (a, t)) : (x >>= f) s = f a t := by
  change (x s >>= fun at' => f at'.1 at'.2) = _
  rw [h]
  rfl

end ScriptContainer
