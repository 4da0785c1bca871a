import ScriptContainer.Proofs.Blocks
import ScriptContainer.Proofs.Targets

/-!
# Where jumps land

In nested blocks an instruction finds an arm, a case or the end of its own block ahead of it, and
jumps there. Only a switch without cases looks past its end: it enters the next case of a switch
around it, if there is one.
-/

namespace ScriptContainer

/-- Where a conditional goes on after a body that is passed by: past the opening of the next arm, or
at the end of the conditional. -/
def Arms.landing : Arms → Nat
  | .closing p => p.1.stop.toNat - p.1.instruction.size
  | .else opening _ _ => opening.1.stop.toNat
  | .elseIf opening _ _ => opening.1.stop.toNat

/-- The targets of an arm are apart by the two words of an `else` where another arm follows. -/
def Arms.Skips (skipTarget target : UInt32) : Arms → Prop
  | .closing _ => skipTarget = target
  | .else _ _ _ => skipTarget.toNat + 2 = target.toNat
  | .elseIf _ _ _ => skipTarget.toNat + 2 = target.toNat

mutual

/-- Every conditional, every arm and every loop jumps to a place of its own block. -/
def Blocks.BranchesLand : Blocks → Prop
  | .done => True
  | .plain _ rest => rest.BranchesLand
  | .conditional opening body arms rest =>
    opening.1.instruction.target.toNat * 4 = arms.landing ∧
      body.BranchesLand ∧ arms.BranchesLand ∧ rest.BranchesLand
  | .switch _ cases rest => cases.BranchesLand ∧ rest.BranchesLand
  | .loop opening body closing rest =>
    opening.1.instruction.target.toNat * 4 = closing.1.stop.toNat ∧
      body.BranchesLand ∧ rest.BranchesLand

/-- Every arm and everything inside jumps to a place of its own block. -/
def Arms.BranchesLand : Arms → Prop
  | .closing _ => True
  | .else opening body closing =>
    opening.1.instruction.target.toNat * 4 = closing.1.stop.toNat ∧ body.BranchesLand
  | .elseIf opening body arms =>
    opening.1.instruction.target.toNat * 4 = arms.landing ∧
      arms.Skips opening.1.instruction.skipTarget opening.1.instruction.target ∧
      body.BranchesLand ∧ arms.BranchesLand

/-- Everything inside the cases jumps to a place of its own block. -/
def Cases.BranchesLand : Cases → Prop
  | .closing _ => True
  | .case _ body rest => body.BranchesLand ∧ rest.BranchesLand

end

mutual

/-- Every switch and every case jumps to a case or to the end of the switch; a switch without cases
is entered at `later`, the next case of a switch around it, if there is one. -/
def Blocks.SwitchesLand (later : Option Placed) : Blocks → Prop
  | .done => True
  | .plain _ rest => rest.SwitchesLand later
  | .conditional _ body arms rest =>
    body.SwitchesLand later ∧ arms.SwitchesLand later ∧ rest.SwitchesLand later
  | .switch opening cases rest =>
    opening.1.instruction.entry.toNat * 4 =
        ((cases.first?.or later).getD cases.last).stop.toNat ∧
      opening.1.instruction.exit.toNat * 4 = cases.last.stop.toNat ∧
      cases.SwitchesLand later ∧ rest.SwitchesLand later
  | .loop _ body _ rest => body.SwitchesLand later ∧ rest.SwitchesLand later

/-- What `Blocks.SwitchesLand` says, inside arms. -/
def Arms.SwitchesLand (later : Option Placed) : Arms → Prop
  | .closing _ => True
  | .else _ body _ => body.SwitchesLand later
  | .elseIf _ body arms => body.SwitchesLand later ∧ arms.SwitchesLand later

/-- Every case jumps to the next one or to the end of its switch. -/
def Cases.SwitchesLand (later : Option Placed) : Cases → Prop
  | .closing _ => True
  | .case opening body rest =>
    opening.1.instruction.target.toNat * 4 = rest.head.stop.toNat ∧
      body.SwitchesLand (rest.first?.or later) ∧ rest.SwitchesLand later

end

section Landing

open Placed

variable {more : List Placed}

lemma Arms.head_mem : ∀ arms : Arms, arms.head ∈ arms.code
  | .closing _ => List.mem_cons_self
  | .else _ _ _ => List.mem_cons_self
  | .elseIf _ _ _ => List.mem_cons_self

lemma Cases.head_mem : ∀ cases : Cases, cases.head ∈ cases.code
  | .closing _ => List.mem_cons_self
  | .case _ _ _ => List.mem_cons_self

lemma Cases.last_mem : ∀ cases : Cases, cases.last ∈ cases.code
  | .closing _ => List.mem_cons_self
  | .case _ body rest =>
    List.mem_cons_of_mem _ (List.mem_append_right body.code (Cases.last_mem rest))

lemma Arms.landing_eq (arms : Arms) (h : arms.head.Fits) :
    arms.head.armTargets.1.toNat * 4 = arms.landing := by
  rw [h.armTarget_mul, Placed.landing]
  cases arms with
  | closing p => exact if_pos (beq_iff_eq.mp p.2)
  | «else» opening =>
    exact if_neg fun h => by
      have hopening := opening.2
      rw [show opening.1.instruction.opcode = .endIf from h] at hopening
      exact Bool.false_ne_true hopening
  | elseIf opening =>
    exact if_neg fun h => by
      have hopening := opening.2
      rw [show opening.1.instruction.opcode = .endIf from h] at hopening
      exact Bool.false_ne_true hopening

lemma Arms.skips_head (arms : Arms) (h : arms.head.Fits) :
    arms.Skips arms.head.armTargets.2 arms.head.armTargets.1 := by
  cases arms with
  | closing p =>
    have hp : p.1.instruction.opcode = .endIf := beq_iff_eq.mp p.2
    change p.1.armTargets.2 = p.1.armTargets.1
    rw [armTargets, if_pos hp]
  | «else» opening => exact h.skipTarget_add (.inl (beq_iff_eq.mp opening.2))
  | elseIf opening => exact h.skipTarget_add (.inr (beq_iff_eq.mp opening.2))

mutual

lemma Blocks.branchesLand : ∀ {b : Blocks} {more : List Placed}, Settled (b.code ++ more) →
    b.BranchesLand
  | .done, _, _ => trivial
  | .plain _ rest, _, h => Blocks.branchesLand (b := rest) h.2.2
  | .conditional opening body arms rest, more, h => by
    rw [Blocks.code, List.cons_append, List.append_assoc, List.append_assoc] at h
    obtain ⟨-, hopening, hbody⟩ := h
    have harms := hbody.of_append
    have hhead := harms.fits _ (List.mem_append_left _ arms.head_mem)
    refine ⟨?_, Blocks.branchesLand hbody, Arms.branchesLand harms,
      Blocks.branchesLand harms.of_append⟩
    rw [← hopening, Instruction.target_retarget_arm (.inl (beq_iff_eq.mp opening.2))
      (body.nextArm_code _ arms)]
    exact arms.landing_eq hhead
  | .switch opening cases rest, more, h => by
    rw [Blocks.code, List.cons_append, List.append_assoc] at h
    exact ⟨Cases.branchesLand h.2.2, Blocks.branchesLand h.2.2.of_append⟩
  | .loop opening body closing rest, more, h => by
    rw [Blocks.code, List.cons_append, List.append_assoc, List.cons_append] at h
    obtain ⟨-, hopening, hbody⟩ := h
    have hclosing := hbody.of_append
    refine ⟨?_, Blocks.branchesLand hbody, Blocks.branchesLand hclosing.2.2⟩
    rw [← hopening, Instruction.target_retarget_doWhile (beq_iff_eq.mp opening.2)
      (body.endOfLoop_code _ closing)]
    exact hclosing.1.target_mul

lemma Arms.branchesLand : ∀ {arms : Arms} {more : List Placed}, Settled (arms.code ++ more) →
    arms.BranchesLand
  | .closing _, _, _ => trivial
  | .else opening body closing, more, h => by
    rw [Arms.code, List.cons_append, List.append_assoc, List.singleton_append] at h
    obtain ⟨-, hopening, hbody⟩ := h
    have hclosing := hbody.of_append
    refine ⟨?_, Blocks.branchesLand hbody⟩
    rw [← hopening, Instruction.target_retarget_else (beq_iff_eq.mp opening.2)
      (body.endOfIf_code more closing)]
    exact hclosing.1.target_mul
  | .elseIf opening body arms, more, h => by
    rw [Arms.code, List.cons_append, List.append_assoc] at h
    obtain ⟨-, hopening, hbody⟩ := h
    have harms := hbody.of_append
    have hhead := harms.fits _ (List.mem_append_left _ arms.head_mem)
    have hopcode : opening.1.instruction.opcode = .elseIf := beq_iff_eq.mp opening.2
    have hnext := body.nextArm_code more arms
    have htarget := Instruction.target_retarget_arm (.inr hopcode) hnext
    have hskip := Instruction.skipTarget_retarget hopcode hnext
    rw [hopening] at htarget hskip
    refine ⟨?_, ?_, Blocks.branchesLand hbody, Arms.branchesLand harms⟩
    · rw [htarget]
      exact arms.landing_eq hhead
    · rw [htarget, hskip]
      exact arms.skips_head hhead

lemma Cases.branchesLand : ∀ {cases : Cases} {more : List Placed}, Settled (cases.code ++ more) →
    cases.BranchesLand
  | .closing _, _, _ => trivial
  | .case opening body rest, more, h => by
    rw [Cases.code, List.cons_append, List.append_assoc] at h
    exact ⟨Blocks.branchesLand h.2.2, Cases.branchesLand h.2.2.of_append⟩

end

mutual

lemma Blocks.switchesLand : ∀ {b : Blocks} {more : List Placed}, Settled (b.code ++ more) →
    b.SwitchesLand (nextCase more)
  | .done, _, _ => trivial
  | .plain _ rest, _, h => Blocks.switchesLand (b := rest) h.2.2
  | .conditional opening body arms rest, more, h => by
    rw [Blocks.code, List.cons_append, List.append_assoc, List.append_assoc] at h
    have harms := h.2.2.of_append
    have hbody := Blocks.switchesLand h.2.2
    have hinside := Arms.switchesLand harms
    rw [Arms.nextCase_code, Blocks.nextCase_code] at hbody
    rw [Blocks.nextCase_code] at hinside
    exact ⟨hbody, hinside, Blocks.switchesLand harms.of_append⟩
  | .switch opening cases rest, more, h => by
    rw [Blocks.code, List.cons_append, List.append_assoc] at h
    obtain ⟨-, hopening, hcases⟩ := h
    have hopcode : opening.1.instruction.opcode = .switch := beq_iff_eq.mp opening.2
    have hlast := cases.endOfSwitch_code (rest.code ++ more)
    have hentry := Instruction.entry_retarget hopcode hlast
    have hexit := Instruction.exit_retarget hopcode hlast
    rw [hopening] at hentry hexit
    rw [Cases.nextCase_code, Blocks.nextCase_code] at hentry
    have hinside := Cases.switchesLand hcases
    rw [Blocks.nextCase_code] at hinside
    refine ⟨?_, ?_, hinside, Blocks.switchesLand hcases.of_append⟩
    · rw [hentry]
      have hfits : ((cases.first?.or (nextCase more)).getD cases.last).Fits := by
        rw [← Blocks.nextCase_code more rest, ← Cases.nextCase_code]
        cases hfound : nextCase (cases.code ++ (rest.code ++ more)) with
        | none => exact hcases.fits _ (List.mem_append_left _ cases.last_mem)
        | some p => exact hcases.fits p (mem_of_scan hfound)
      exact hfits.target_mul
    · rw [hexit]
      exact (hcases.fits _ (List.mem_append_left _ cases.last_mem)).target_mul
  | .loop opening body closing rest, more, h => by
    rw [Blocks.code, List.cons_append, List.append_assoc, List.cons_append] at h
    have hclosing := h.2.2.of_append
    have hbody := Blocks.switchesLand h.2.2
    rw [nextCase_close _ .loop (by decide) (beq_iff_eq.mp closing.2), Blocks.nextCase_code] at hbody
    exact ⟨hbody, Blocks.switchesLand hclosing.2.2⟩

lemma Arms.switchesLand : ∀ {arms : Arms} {more : List Placed}, Settled (arms.code ++ more) →
    arms.SwitchesLand (nextCase more)
  | .closing _, _, _ => trivial
  | .else opening body closing, more, h => by
    rw [Arms.code, List.cons_append, List.append_assoc, List.singleton_append] at h
    have hbody := Blocks.switchesLand h.2.2
    rw [nextCase_close _ .conditional (by decide) (beq_iff_eq.mp closing.2)] at hbody
    exact hbody
  | .elseIf opening body arms, more, h => by
    rw [Arms.code, List.cons_append, List.append_assoc] at h
    have hbody := Blocks.switchesLand h.2.2
    rw [Arms.nextCase_code] at hbody
    exact ⟨hbody, Arms.switchesLand h.2.2.of_append⟩

lemma Cases.switchesLand : ∀ {cases : Cases} {more : List Placed}, Settled (cases.code ++ more) →
    cases.SwitchesLand (nextCase more)
  | .closing _, _, _ => trivial
  | .case opening body rest, more, h => by
    rw [Cases.code, List.cons_append, List.append_assoc] at h
    obtain ⟨-, hopening, hbody⟩ := h
    have hrest := hbody.of_append
    have hinside := Blocks.switchesLand hbody
    rw [Cases.nextCase_code] at hinside
    refine ⟨?_, hinside, Cases.switchesLand hrest⟩
    have hopcode : opening.1.instruction.opcode = .case ∨ opening.1.instruction.opcode = .case2 := by
      simpa only [BlockKind.parts, Bool.or_eq_true, beq_iff_eq] using opening.2
    rw [← hopening, Instruction.target_retarget_case hopcode (body.nextCaseOrEnd_code more rest)]
    exact (hrest.fits _ (List.mem_append_left _ rest.head_mem)).target_mul

end

end Landing

namespace Script

variable {s after : Script} {options : Options} {built : Built} {f : Function}

end Script

end ScriptContainer