import ScriptContainer.Proofs.Outcomes
import ScriptContainer.Proofs.Reads

/-!
# The bytes of what is read

A read that succeeds moves the reader by as many bytes as its answer takes.
-/

namespace ScriptContainer

variable {α β : Type}

/-- A read that succeeds moves the reader by a number of bytes that fits the answer. -/
def Consumes (read : Read α) (takes : α → Nat → Prop) : Prop :=
  ∀ r, Outcome (read r) (fun a t => ∃ n, takes a n ∧ t = r.skip n) fun _ => True

namespace Consumes

variable {read : Read α} {takes : α → Nat → Prop}

lemma of_ok (h : Consumes read takes) {r t : Reader} {a : α} (hread : read r = .ok a t) :
    ∃ n, takes a n ∧ t = r.skip n :=
  (h r).of_ok hread

lemma mono {takes' : α → Nat → Prop} (h : Consumes read takes)
    (hle : ∀ a n, takes a n → takes' a n) : Consumes read takes' := by
  intro r
  refine (h r).mono (fun a t ht => ?_) fun _ he => he
  obtain ⟨n, hn, ht⟩ := ht
  exact ⟨n, hle a n hn, ht⟩

lemma pure {a : α} (h : takes a 0) : Consumes (Pure.pure a) takes :=
  fun _ => ⟨0, h, rfl⟩

lemma throw (e : Error) : Consumes (throw e : Read α) takes := fun _ => trivial

lemma bind {next : α → Read β} {takes' : β → Nat → Prop} (h : Consumes read takes)
    (hnext : ∀ a m, takes a m → Consumes (next a) fun b n => takes' b (m + n)) :
    Consumes (read >>= next) takes' := by
  intro r
  refine (h r).bind fun a t hat => ?_
  obtain ⟨m, hm, ht⟩ := hat
  refine (hnext a m hm t).mono (fun b u hu => ?_) fun _ he => he
  obtain ⟨n, hn, hu⟩ := hu
  exact ⟨m + n, hn, by rw [hu, ht, Reader.skip_skip]⟩

lemma map {f : α → β} {takes' : β → Nat → Prop} (h : Consumes read takes)
    (hf : ∀ a n, takes a n → takes' (f a) n) : Consumes (f <$> read) takes' := by
  intro r
  cases hread : read r with
  | ok a t =>
    obtain ⟨n, hn, ht⟩ := h.of_ok hread
    rw [map_of_ok hread]
    exact ⟨n, hf a n hn, ht⟩
  | error e t =>
    rw [map_of_error hread]
    trivial

end Consumes

namespace Read

lemma bytes_consumes (count : Nat) :
    Consumes (bytes count) fun bs n => bs.length = count ∧ n = count := by
  intro r
  unfold bytes
  split
  case isTrue h =>
    refine ⟨count, ⟨?_, rfl⟩, rfl⟩
    rw [Array.length_toList, Array.size_extract]
    omega
  case isFalse => trivial

lemma word_consumes : Consumes word fun _ n => n = 4 := by
  refine (bytes_consumes 4).bind fun bs m hm => ?_
  obtain ⟨hlength, rfl⟩ := hm
  match bs, hlength with
  | [a, b, c, d], _ => exact .pure rfl

lemma signed_consumes : Consumes signed fun _ n => n = 4 :=
  word_consumes.bind fun _ _ hm => .pure hm

lemma single_consumes : Consumes single fun _ n => n = 4 :=
  word_consumes.bind fun _ _ hm => .pure hm

lemma offset_consumes : Consumes offset fun _ n => n = 0 := fun _ => ⟨0, rfl, rfl⟩

lemma length_consumes : Consumes length fun _ n => n = 0 := fun _ => ⟨0, rfl, rfl⟩

lemma times_consumes {read : Read α} {size : Nat} (h : Consumes read fun _ n => n = size)
    (count : Nat) : Consumes (times read count) fun xs n => xs.length = count ∧ n = count * size := by
  induction count with
  | zero => exact .pure ⟨rfl, (Nat.zero_mul size).symm⟩
  | succ count ih =>
    refine h.bind fun x m hm => ih.bind fun xs n hn => .pure ⟨?_, ?_⟩
    · rw [List.length_cons, hn.1]
    · rw [hm, hn.2, Nat.succ_mul]
      omega

end Read

end ScriptContainer
