import ScriptContainer.Proofs.Fixing

/-!
# Targets

Setting targets again changes nothing, since an instruction looks ahead for opcodes and their ends
only. So each instruction of a container that has been built jumps to what it finds ahead of it.
-/

namespace ScriptContainer

namespace Instruction

variable {S : Slots}

/-- Where the instruction jumps to, in words. -/
def target : Instruction S → UInt32
  | .if _ target _ _ | .else target | .elseIf _ _ _ target _ _ | .case _ target | .case2 _ target
  | .doWhile _ target => target
  | _ => 0

/-- By where an arm is skipped once another one has been gone through, in words. -/
def skipTarget : Instruction S → UInt32
  | .elseIf skipTarget .. => skipTarget
  | _ => 0

/-- Where a switch begins, in words. -/
def entry : Instruction S → UInt32
  | .switch _ entry _ => entry
  | _ => 0

/-- Where a switch ends, in words. -/
def exit : Instruction S → UInt32
  | .switch _ _ exit => exit
  | _ => 0

end Instruction

namespace Placed

/-- What looking ahead sees of an instruction. -/
def sight (p : Placed) : Opcode × UInt32 := (p.instruction.opcode, p.stop)

lemma scan_sight {opens closes : Opcode} {stops : Opcode → Bool} {code other : List Placed}
    (h : code.map sight = other.map sight) (depth : Nat) :
    (scan opens closes stops depth code).map sight =
      (scan opens closes stops depth other).map sight := by
  induction code generalizing other depth with
  | nil => rw [List.map_eq_nil_iff.mp h.symm]
  | cons p rest ih =>
    obtain ⟨q, more, rfl, hq, hmore⟩ := List.map_eq_cons_iff.mp h.symm
    have hopcode : q.instruction.opcode = p.instruction.opcode := congrArg Prod.fst hq
    rw [scan, scan, hopcode]
    split
    · exact congrArg some hq.symm
    · split
      · exact ih hmore.symm _
      · split
        · exact ih hmore.symm _
        · exact ih hmore.symm _

lemma mem_of_scan {opens closes : Opcode} {stops : Opcode → Bool} {code : List Placed} {p : Placed}
    {depth : Nat} (h : scan opens closes stops depth code = some p) : p ∈ code := by
  induction code generalizing depth with
  | nil => cases h
  | cons q rest ih =>
    rw [scan] at h
    split at h
    · obtain rfl := Option.some.inj h
      exact List.mem_cons_self
    · split at h
      · exact List.mem_cons_of_mem q (ih h)
      · split at h
        · exact List.mem_cons_of_mem q (ih h)
        · exact List.mem_cons_of_mem q (ih h)

lemma armTargets_congr {p q : Placed} (h : p.sight = q.sight) : p.armTargets = q.armTargets := by
  have hopcode : p.instruction.opcode = q.instruction.opcode := congrArg Prod.fst h
  have hstop : p.stop = q.stop := congrArg Prod.snd h
  rw [armTargets, armTargets, hopcode, hstop]

lemma target_congr {found other : Option Placed} (h : found.map sight = other.map sight) :
    found.map Placed.target = other.map Placed.target := by
  have hsnd := congrArg (Option.map Prod.snd) h
  rw [Option.map_map, Option.map_map] at hsnd
  have hstop := congrArg (Option.map fun stop : UInt32 => stop / 4) hsnd
  rwa [Option.map_map, Option.map_map] at hstop

lemma target_getD_congr {found other : Option Placed} (h : found.map sight = other.map sight)
    {p q : Placed} (hpq : p.sight = q.sight) : (found.getD p).target = (other.getD q).target := by
  have hfound := target_congr h
  cases found <;> cases other
  · exact congrArg (fun seen => seen.2 / 4) hpq
  · cases hfound
  · cases hfound
  · exact Option.some.inj hfound

end Placed

namespace Instruction

open Placed

variable {S : Slots}

lemma size_of_endIf {i : Instruction S} (h : i.opcode = .endIf) : i.size = 4 := by
  cases i with
  | endIf => rfl
  | _ => cases h

lemma eight_le_size {i : Instruction S} (h : i.opcode = .else ∨ i.opcode = .elseIf) :
    8 ≤ i.size := by
  cases i with
  | «else» => exact le_rfl
  | elseIf =>
    simp only [size, operandSize]
    omega
  | _ => rcases h with h | h <;> cases h

lemma retarget_switch_of_some {rest : List Placed} {last : Placed}
    (h : endOfSwitch rest = some last) (value : VarRef) (entry exit : UInt32) :
    (switch value entry exit : Instruction .bound).retarget rest =
      switch value ((nextCase rest).getD last).target last.target := by
  rw [retarget, h]
  cases nextCase rest <;> rfl

end Instruction

namespace Placed

/-- The instruction ends at a whole word and has its bytes before its end. -/
def Fits (p : Placed) : Prop := 4 ∣ p.stop.toNat ∧ p.instruction.size ≤ p.stop.toNat

/-- The instructions have their places, and each has the targets that follow from the instructions
after it. -/
def Settled : List Placed → Prop
  | [] => True
  | p :: rest => p.Fits ∧ p.instruction.retarget rest = p.instruction ∧ Settled rest

lemma Settled.of_append {code more : List Placed} (h : Settled (code ++ more)) : Settled more := by
  induction code with
  | nil => exact h
  | cons p rest ih => exact ih h.2.2

lemma toNat_lowered (offset bytes : UInt32) :
    (lowered offset bytes).toNat = offset.toNat - bytes.toNat := by
  unfold lowered
  split
  · rename_i h
    exact (Nat.sub_eq_zero_of_le (UInt32.lt_iff_toNat_lt.mp h).le).symm
  · rename_i h
    exact UInt32.toNat_sub_of_le _ _ (UInt32.le_iff_toNat_le.mpr (Nat.le_of_not_lt h))

lemma Fits.target_mul {p : Placed} (h : p.Fits) : p.target.toNat * 4 = p.stop.toNat := by
  rw [target, UInt32.toNat_div]
  exact Nat.div_mul_cancel h.1

/-- Where an instruction jumps to that looks for an arm: to the end of a conditional, but past the
opening of another arm. -/
def landing (p : Placed) : Nat :=
  if p.instruction.opcode = .endIf then p.stop.toNat - p.instruction.size else p.stop.toNat

lemma Fits.armTarget_mul {p : Placed} (h : p.Fits) : p.armTargets.1.toNat * 4 = p.landing := by
  rw [armTargets, landing]
  split
  · rename_i hend
    dsimp only
    rw [UInt32.toNat_div, toNat_lowered, Instruction.size_of_endIf hend]
    exact Nat.div_mul_cancel (Nat.dvd_sub h.1 (Nat.dvd_refl 4))
  · exact h.target_mul

lemma Fits.skipTarget_add {p : Placed} (h : p.Fits)
    (hp : p.instruction.opcode = .else ∨ p.instruction.opcode = .elseIf) :
    p.armTargets.2.toNat + 2 = p.armTargets.1.toNat := by
  have hne : p.instruction.opcode ≠ .endIf := by
    rcases hp with hp | hp <;> rw [hp] <;> decide
  have hsize := Instruction.eight_le_size hp
  rw [armTargets, if_neg hne]
  dsimp only
  rw [UInt32.toNat_div, UInt32.toNat_div, toNat_lowered]
  have hstop := h.2
  change (p.stop.toNat - 8) / 4 + 2 = p.stop.toNat / 4
  omega

end Placed

namespace Instruction

open Placed

variable {i : Instruction .bound} {rest : List Placed} {p : Placed}

lemma target_retarget_arm (hi : i.opcode = .if ∨ i.opcode = .elseIf)
    (hp : nextArm rest = some p) : (i.retarget rest).target = p.armTargets.1 := by
  cases i with
  | «if» | elseIf =>
    rw [retarget, hp]
    rfl
  | _ => rcases hi with hi | hi <;> cases hi

lemma skipTarget_retarget (hi : i.opcode = .elseIf) (hp : nextArm rest = some p) :
    (i.retarget rest).skipTarget = p.armTargets.2 := by
  cases i with
  | elseIf =>
    rw [retarget, hp]
    rfl
  | _ => cases hi

lemma target_retarget_else (hi : i.opcode = .else) (hp : endOfIf rest = some p) :
    (i.retarget rest).target = p.target := by
  cases i with
  | «else» =>
    rw [retarget, hp]
    rfl
  | _ => cases hi

lemma target_retarget_doWhile (hi : i.opcode = .doWhile) (hp : endOfLoop rest = some p) :
    (i.retarget rest).target = p.target := by
  cases i with
  | doWhile =>
    rw [retarget, hp]
    rfl
  | _ => cases hi

lemma target_retarget_case (hi : i.opcode = .case ∨ i.opcode = .case2)
    (hp : nextCaseOrEnd rest = some p) : (i.retarget rest).target = p.target := by
  cases i with
  | case | case2 =>
    rw [retarget, hp]
    rfl
  | _ => rcases hi with hi | hi <;> cases hi

lemma entry_retarget (hi : i.opcode = .switch) (hp : endOfSwitch rest = some p) :
    (i.retarget rest).entry = ((nextCase rest).getD p).target := by
  cases i with
  | switch =>
    rw [retarget_switch_of_some hp]
    rfl
  | _ => cases hi

lemma exit_retarget (hi : i.opcode = .switch) (hp : endOfSwitch rest = some p) :
    (i.retarget rest).exit = p.target := by
  cases i with
  | switch =>
    rw [retarget_switch_of_some hp]
    rfl
  | _ => cases hi

end Instruction

namespace Placed.Settled

variable {code more : List Placed} {p : Placed}

lemma fits (h : Settled code) : ∀ p ∈ code, p.Fits := by
  induction code with
  | nil => exact fun _ hp => absurd hp List.not_mem_nil
  | cons p rest ih => exact List.forall_mem_cons.mpr ⟨h.1, ih h.2.2⟩

end Placed.Settled

/-- The instructions of a function with the ends that are recorded for them. -/
def Function.placed (f : Function) (found : Ends) : List Placed :=
  f.code.zipWith Placed.mk found.offsets

lemma Built.Records.fits {after : Script} {built : Built} {g : Function} {found : Ends}
    (h : built.Records after g found) :
    ∀ p ∈ g.placed found, p.Fits := by
  intro p hp
  obtain ⟨k, hk⟩ := List.mem_iff_getElem?.mp hp
  rw [Function.placed, List.getElem?_zipWith_eq_some] at hk
  obtain ⟨i, stop, hi, hstop, rfl⟩ := hk
  obtain ⟨first, -, hfirst, -⟩ := h.instructions k i stop hi hstop
  exact ⟨h.aligned stop (List.mem_of_getElem? hstop), hfirst ▸ Nat.le_add_left _ _⟩

namespace Script

variable {s after : Script} {options : Options} {built : Built} {f : Function}

end Script

end ScriptContainer
