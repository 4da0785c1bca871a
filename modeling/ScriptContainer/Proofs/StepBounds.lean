import ScriptContainer.Proofs.Faults

/-!
# Steps that are never used up

Reading code takes a bounded number of steps. Every instruction has at least four bytes, and at most
three steps are taken between two of them. So reading goes the same way with any number of steps that
is greater than the number of bytes left: the bound is never what ends it, however functions start
each other.
-/

namespace ScriptContainer

variable {α β : Type}

lemma bind_congr_run {ε σ : Type} {x y : EStateM ε σ α} {f g : α → EStateM ε σ β} {s : σ}
    (hx : x s = y s) (hf : ∀ a t, x s = .ok a t → f a t = g a t) : (x >>= f) s = (y >>= g) s := by
  cases hrun : x s with
  | ok a t => rw [bind_of_ok hrun, bind_of_ok (hx ▸ hrun), hf a t hrun]
  | error e t => rw [bind_of_error hrun, bind_of_error (hx ▸ hrun)]

/-- The number of bytes that are left to read. -/
def Walk.left (walk : Walk) : Nat := walk.reader.remaining

namespace Walking

lemma left_le {run : Walking α} {walk walk' : Walk} {a : α} (h : Proceeds run walk)
    (hrun : run walk = .ok a walk') : walk'.left ≤ walk.left := by
  obtain ⟨count, hcount⟩ := h.of_ok hrun
  unfold Walk.left
  rw [hcount]
  simp only [Reader.remaining, Reader.skip]
  omega

lemma left_of_instruction {ctx : Context} {i : Instruction .bound} {walk walk' : Walk}
    (h : ofRead (Read.instruction ctx) walk = .ok i walk') : walk'.left + 4 ≤ walk.left := by
  unfold ofRead at h
  cases hread : Read.instruction ctx walk.reader with
  | error e r =>
    rw [hread] at h
    cases h
  | ok j r =>
    rw [hread] at h
    obtain ⟨rfl, rfl⟩ := EStateM.Result.ok.inj h
    obtain ⟨n, first, -, -, -, hpasses⟩ := Read.exists_of_instruction hread
    have hlength := length_bytesOfWords (first :: n.operandWords)
    rw [List.length_cons] at hlength
    obtain ⟨rest, hshows⟩ := hpasses.shows (List.ne_nil_of_length_pos (by omega))
    have hroom := hshows.length_eq
    rw [List.length_append] at hroom
    unfold Walk.left
    rw [hpasses.eq_skip]
    simp only [Reader.remaining, Reader.skip]
    omega

mutual

lemma body_congr (ctx : Context) (stop : Nat) {steps steps' : Nat} {walk : Walk}
    (h : walk.left + 1 ≤ steps) (h' : walk.left + 1 ≤ steps') :
    body ctx stop steps walk = body ctx stop steps' walk := by
  match steps, steps' with
  | steps + 1, steps' + 1 =>
    by_cases hlt : walk.reader.offset < stop
    · rw [body_step hlt, body_step hlt]
      refine bind_congr_run rfl fun i next hnext => ?_
      have hless := left_of_instruction hnext
      have hstart : start ctx steps i next = start ctx steps' i next := by
        unfold start
        cases i.spawned? with
        | none => rfl
        | some id => exact spawned_congr ctx id (by omega) (by omega)
      refine bind_congr_run hstart fun _ middle hmiddle => ?_
      have hle : middle.left ≤ next.left := by
        refine left_le ?_ hmiddle
        unfold start
        cases i.spawned? with
        | none => exact .pure ()
        | some id => exact spawned_proceeds ctx id steps next
      exact bind_congr_run (body_congr ctx stop (by omega) (by omega)) fun _ _ _ => rfl
    · rw [body, body, bind_of_ok offset_apply, bind_of_ok offset_apply, if_neg hlt, if_neg hlt]
termination_by structural steps

lemma spawned_congr (ctx : Context) (id : RecordId) {steps steps' : Nat} {walk : Walk}
    (h : walk.left + 3 ≤ steps) (h' : walk.left + 3 ≤ steps') :
    spawned ctx id steps walk = spawned ctx id steps' walk := by
  match steps, steps' with
  | steps + 1, steps' + 1 =>
    rw [spawned, spawned, bind_of_ok isSeen_apply, bind_of_ok isSeen_apply]
    split
    · rfl
    refine bind_congr_run rfl fun f walk' hf => ?_
    obtain ⟨-, rfl⟩ := (ofExcept_outcome _).of_ok hf
    refine bind_congr_run rfl fun here walk' hhere => ?_
    obtain ⟨-, rfl⟩ := EStateM.Result.ok.inj hhere
    split
    · rfl
    · refine bind_congr_run rfl fun _ noted hnoted => ?_
      obtain ⟨-, rfl⟩ := EStateM.Result.ok.inj hnoted
      exact function_congr ctx f (Nat.le_of_succ_le_succ h) (Nat.le_of_succ_le_succ h')
termination_by structural steps

lemma function_congr (ctx : Context) (f : Function) {steps steps' : Nat} {walk : Walk}
    (h : walk.left + 2 ≤ steps) (h' : walk.left + 2 ≤ steps') :
    function ctx f steps walk = function ctx f steps' walk := by
  match steps, steps' with
  | steps + 1, steps' + 1 =>
    rw [function, function]
    refine bind_congr_run rfl fun _ entered hentered => ?_
    obtain ⟨-, rfl⟩ := (visit_outcome _).of_ok hentered
    rw [bind_of_ok offset_apply, bind_of_ok offset_apply]
    dsimp only
    split
    · rfl
    · refine bind_congr_run (body_congr (ctx.push f) _ ?_ ?_) fun _ _ _ => rfl
      · exact Nat.le_of_succ_le_succ h
      · exact Nat.le_of_succ_le_succ h'
termination_by structural steps

end

end Walking

end ScriptContainer
