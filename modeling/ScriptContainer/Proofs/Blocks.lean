import Mathlib.Tactic.Common
import ScriptContainer.Fixup

/-!
# Nested blocks

Conditionals, switches and loops nest in each other. Looking ahead for an instruction of one kind of
block passes over every block that is nested on the way, whatever its kind: inside blocks of the same
kind the depth is above zero, and blocks of another kind hold nothing to stop at.
-/

namespace ScriptContainer

/-- The kinds of blocks. -/
inductive BlockKind where
  | conditional
  | switch
  | loop
  deriving DecidableEq, Repr

namespace BlockKind

/-- The instruction that opens a block. -/
def opens : BlockKind → Opcode
  | conditional => .if
  | switch => .switch
  | loop => .doWhile

/-- The instruction that closes a block. -/
def closes : BlockKind → Opcode
  | conditional => .endIf
  | switch => .endSwitch
  | loop => .endDoWhile

/-- The instructions that part the inside of a block. -/
def parts : BlockKind → Opcode → Bool
  | conditional, op => op == .else || op == .elseIf
  | switch, op => op == .case || op == .case2
  | loop, _ => false

/-- At most the instructions that part or close a block are stopped at. -/
def Confines (kind : BlockKind) (stops : Opcode → Bool) : Prop :=
  ∀ op, stops op = true → kind.parts op = true ∨ op = kind.closes

/-- The number of open blocks of a kind inside another block, where there are `depth` around it. -/
def within (kind inner : BlockKind) (depth : Nat) : Nat := if kind = inner then depth + 1 else depth

lemma ne_of_within_eq_zero {kind inner : BlockKind} {depth : Nat}
    (h : kind.within inner depth = 0) : kind ≠ inner := by
  rintro rfl
  rw [within, if_pos rfl] at h
  exact Nat.succ_ne_zero depth h

end BlockKind

/-- The instruction neither opens, parts nor closes a block. -/
def Opcode.isPlain : Opcode → Bool
  | .if | .else | .elseIf | .endIf | .switch | .case | .case2 | .endSwitch | .doWhile
  | .endDoWhile => false
  | _ => true

/-- An instruction of some kind with its end. -/
abbrev Placed.Of (holds : Opcode → Bool) := { p : Placed // holds p.instruction.opcode = true }

mutual

/-- Code in which blocks are nested. -/
inductive Blocks where
  | done
  | plain (p : Placed.Of Opcode.isPlain) (rest : Blocks)
  | conditional (opening : Placed.Of (· == .if)) (body : Blocks) (arms : Arms) (rest : Blocks)
  | switch (opening : Placed.Of (· == .switch)) (cases : Cases) (rest : Blocks)
  | loop (opening : Placed.Of (· == .doWhile)) (body : Blocks)
      (closing : Placed.Of (· == .endDoWhile)) (rest : Blocks)

/-- What follows the body of a conditional. -/
inductive Arms where
  | closing (p : Placed.Of (· == .endIf))
  | else (opening : Placed.Of (· == .else)) (body : Blocks) (closing : Placed.Of (· == .endIf))
  | elseIf (opening : Placed.Of (· == .elseIf)) (body : Blocks) (arms : Arms)

/-- The cases of a switch. -/
inductive Cases where
  | closing (p : Placed.Of (· == .endSwitch))
  | case (opening : Placed.Of (BlockKind.parts .switch)) (body : Blocks) (rest : Cases)

end

mutual

def Blocks.code : Blocks → List Placed
  | .done => []
  | .plain p rest => p.1 :: rest.code
  | .conditional opening body arms rest => opening.1 :: (body.code ++ (arms.code ++ rest.code))
  | .switch opening cases rest => opening.1 :: (cases.code ++ rest.code)
  | .loop opening body closing rest => opening.1 :: (body.code ++ closing.1 :: rest.code)

def Arms.code : Arms → List Placed
  | .closing p => [p.1]
  | .else opening body closing => opening.1 :: (body.code ++ [closing.1])
  | .elseIf opening body arms => opening.1 :: (body.code ++ arms.code)

/-- The instructions in order. -/
def Cases.code : Cases → List Placed
  | .closing p => [p.1]
  | .case opening body rest => opening.1 :: (body.code ++ rest.code)

end

section SameOpcodes

/-- The code has the same opcodes in the same order. -/
def SameOpcodes (code other : List Placed) : Prop :=
  code.map (fun p => p.instruction.opcode) = other.map fun p => p.instruction.opcode

lemma SameOpcodes.of_cons {code : List Placed} {holds : Opcode → Bool} {p : Placed.Of holds}
    {rest : List Placed} (h : SameOpcodes code (p.1 :: rest)) :
    ∃ (q : Placed.Of holds) (more : List Placed), code = q.1 :: more ∧ SameOpcodes more rest := by
  obtain ⟨q, more, rfl, hq, hmore⟩ := List.map_eq_cons_iff.mp h
  exact ⟨⟨q, hq ▸ p.2⟩, more, rfl, hmore⟩

lemma SameOpcodes.of_append {code front back : List Placed} (h : SameOpcodes code (front ++ back)) :
    ∃ front' back', code = front' ++ back' ∧ SameOpcodes front' front ∧ SameOpcodes back' back := by
  rw [SameOpcodes, List.map_append] at h
  exact List.map_eq_append_iff.mp h

mutual

lemma Blocks.exists_code : ∀ (b : Blocks) {code : List Placed}, SameOpcodes code b.code →
    ∃ blocks : Blocks, blocks.code = code
  | .done, _, h => ⟨.done, (List.map_eq_nil_iff.mp h).symm⟩
  | .plain p rest, _, h => by
    obtain ⟨q, more, rfl, hmore⟩ := SameOpcodes.of_cons h
    obtain ⟨rest', rfl⟩ := Blocks.exists_code rest hmore
    exact ⟨.plain q rest', rfl⟩
  | .conditional opening body arms rest, _, h => by
    obtain ⟨q, more, rfl, hmore⟩ := SameOpcodes.of_cons h
    obtain ⟨front, more, rfl, hfront, hmore⟩ := SameOpcodes.of_append hmore
    obtain ⟨middle, back, rfl, hmiddle, hback⟩ := SameOpcodes.of_append hmore
    obtain ⟨body', rfl⟩ := Blocks.exists_code body hfront
    obtain ⟨arms', rfl⟩ := Arms.exists_code arms hmiddle
    obtain ⟨rest', rfl⟩ := Blocks.exists_code rest hback
    exact ⟨.conditional q body' arms' rest', rfl⟩
  | .switch opening cases rest, _, h => by
    obtain ⟨q, more, rfl, hmore⟩ := SameOpcodes.of_cons h
    obtain ⟨front, back, rfl, hfront, hback⟩ := SameOpcodes.of_append hmore
    obtain ⟨cases', rfl⟩ := Cases.exists_code cases hfront
    obtain ⟨rest', rfl⟩ := Blocks.exists_code rest hback
    exact ⟨.switch q cases' rest', rfl⟩
  | .loop opening body closing rest, _, h => by
    obtain ⟨q, more, rfl, hmore⟩ := SameOpcodes.of_cons h
    obtain ⟨front, more, rfl, hfront, hmore⟩ := SameOpcodes.of_append hmore
    obtain ⟨closing', back, rfl, hback⟩ := SameOpcodes.of_cons hmore
    obtain ⟨body', rfl⟩ := Blocks.exists_code body hfront
    obtain ⟨rest', rfl⟩ := Blocks.exists_code rest hback
    exact ⟨.loop q body' closing' rest', rfl⟩

lemma Arms.exists_code : ∀ (arms : Arms) {code : List Placed}, SameOpcodes code arms.code →
    ∃ arms' : Arms, arms'.code = code
  | .closing p, _, h => by
    obtain ⟨q, more, rfl, hmore⟩ := SameOpcodes.of_cons h
    obtain rfl := List.map_eq_nil_iff.mp hmore
    exact ⟨.closing q, rfl⟩
  | .else opening body closing, _, h => by
    obtain ⟨q, more, rfl, hmore⟩ := SameOpcodes.of_cons h
    obtain ⟨front, more, rfl, hfront, hmore⟩ := SameOpcodes.of_append hmore
    obtain ⟨closing', back, rfl, hback⟩ := SameOpcodes.of_cons hmore
    obtain rfl := List.map_eq_nil_iff.mp hback
    obtain ⟨body', rfl⟩ := Blocks.exists_code body hfront
    exact ⟨.else q body' closing', rfl⟩
  | .elseIf opening body arms, _, h => by
    obtain ⟨q, more, rfl, hmore⟩ := SameOpcodes.of_cons h
    obtain ⟨front, back, rfl, hfront, hback⟩ := SameOpcodes.of_append hmore
    obtain ⟨body', rfl⟩ := Blocks.exists_code body hfront
    obtain ⟨arms', rfl⟩ := Arms.exists_code arms hback
    exact ⟨.elseIf q body' arms', rfl⟩

lemma Cases.exists_code : ∀ (cases : Cases) {code : List Placed}, SameOpcodes code cases.code →
    ∃ cases' : Cases, cases'.code = code
  | .closing p, _, h => by
    obtain ⟨q, more, rfl, hmore⟩ := SameOpcodes.of_cons h
    obtain rfl := List.map_eq_nil_iff.mp hmore
    exact ⟨.closing q, rfl⟩
  | .case opening body rest, _, h => by
    obtain ⟨q, more, rfl, hmore⟩ := SameOpcodes.of_cons h
    obtain ⟨front, back, rfl, hfront, hback⟩ := SameOpcodes.of_append hmore
    obtain ⟨body', rfl⟩ := Blocks.exists_code body hfront
    obtain ⟨rest', rfl⟩ := Cases.exists_code rest hback
    exact ⟨.case q body' rest', rfl⟩

end

end SameOpcodes

/-- The first arm, or else the end of the conditional. -/
def Arms.head : Arms → Placed
  | .closing p => p.1
  | .else opening _ _ => opening.1
  | .elseIf opening _ _ => opening.1

namespace Cases

/-- The first case, or else the end of the switch. -/
def head : Cases → Placed
  | .closing p => p.1
  | .case opening _ _ => opening.1

/-- The first case. -/
def first? : Cases → Option Placed
  | .closing _ => none
  | .case opening _ _ => some opening.1

/-- The end of the switch. -/
def last : Cases → Placed
  | .closing p => p.1
  | .case _ _ rest => rest.last

end Cases

namespace Placed

/-- Look ahead over blocks of one kind. -/
abbrev look (kind : BlockKind) (stops : Opcode → Bool) (depth : Nat) (code : List Placed) :
    Option Placed :=
  scan kind.opens kind.closes stops depth code

section Look

variable {kind : BlockKind} {stops : Opcode → Bool} {p : Placed} {rest : List Placed}

lemma look_stop (hp : stops p.instruction.opcode = true) :
    look kind stops 0 (p :: rest) = some p := by
  rw [look, scan, beq_self_eq_true, Bool.true_and, if_pos hp]

lemma look_pass {depth : Nat} (hp : depth = 0 → stops p.instruction.opcode = false) :
    look kind stops depth (p :: rest) =
      look kind stops (if p.instruction.opcode = kind.opens then depth + 1
        else if p.instruction.opcode = kind.closes then depth - 1 else depth) rest := by
  have hstop : (depth == 0 && stops p.instruction.opcode) = false := by
    cases depth with
    | zero => rw [hp rfl, Bool.and_false]
    | succ depth => rfl
  rw [look, scan, hstop, if_neg Bool.false_ne_true]
  split
  · rfl
  · split <;> rfl

variable (hstops : kind.Confines stops) (depth : Nat)
include hstops

lemma stops_eq_false {op : Opcode} (hparts : kind.parts op = false) (hcloses : op ≠ kind.closes) :
    stops op = false := by
  rw [← Bool.not_eq_true]
  intro h
  rcases hstops op h with h | h
  · rw [hparts] at h
    exact Bool.false_ne_true h
  · exact hcloses h

lemma look_plain (hp : p.instruction.opcode.isPlain = true) :
    look kind stops depth (p :: rest) = look kind stops depth rest := by
  have hkind : kind.parts p.instruction.opcode = false ∧ p.instruction.opcode ≠ kind.opens ∧
      p.instruction.opcode ≠ kind.closes := by
    revert hp
    cases p.instruction.opcode <;> cases kind <;> decide
  rw [look_pass fun _ => stops_eq_false hstops hkind.1 hkind.2.2, if_neg hkind.2.1,
    if_neg hkind.2.2]

lemma look_open (inner : BlockKind) (hp : p.instruction.opcode = inner.opens) :
    look kind stops depth (p :: rest) = look kind stops (kind.within inner depth) rest := by
  have hkind : kind.parts inner.opens = false ∧ inner.opens ≠ kind.closes ∧
      (inner.opens = kind.opens ↔ kind = inner) := by
    cases inner <;> cases kind <;> decide
  rw [look_pass fun _ => hp ▸ stops_eq_false hstops hkind.1 hkind.2.1, hp, if_neg hkind.2.1]
  simp only [hkind.2.2, BlockKind.within]

lemma look_part (inner : BlockKind) (hp : inner.parts p.instruction.opcode = true) :
    look kind stops (kind.within inner depth) (p :: rest) =
      look kind stops (kind.within inner depth) rest := by
  have hkind : p.instruction.opcode ≠ kind.opens ∧ p.instruction.opcode ≠ kind.closes ∧
      (kind ≠ inner → kind.parts p.instruction.opcode = false) := by
    revert hp
    cases p.instruction.opcode <;> cases inner <;> cases kind <;> decide
  rw [look_pass, if_neg hkind.1, if_neg hkind.2.1]
  exact fun hdepth => stops_eq_false hstops
    (hkind.2.2 (BlockKind.ne_of_within_eq_zero hdepth)) hkind.2.1

lemma look_close (inner : BlockKind) (hp : p.instruction.opcode = inner.closes) :
    look kind stops (kind.within inner depth) (p :: rest) = look kind stops depth rest := by
  have hkind : kind.parts inner.closes = false ∧ inner.closes ≠ kind.opens ∧
      (inner.closes = kind.closes ↔ kind = inner) := by
    cases inner <;> cases kind <;> decide
  rw [look_pass, hp, if_neg hkind.2.1, BlockKind.within]
  · by_cases h : kind = inner
    · rw [if_pos (hkind.2.2.mpr h), if_pos h, Nat.add_sub_cancel]
    · rw [if_neg (mt hkind.2.2.mp h), if_neg h]
  · exact fun hdepth => hp ▸ stops_eq_false hstops hkind.1
      (mt hkind.2.2.mp (BlockKind.ne_of_within_eq_zero hdepth))

end Look

end Placed

section Passing

open Placed

variable {kind : BlockKind} {stops : Opcode → Bool}

mutual

/-- Looking ahead passes over code in which blocks are nested. -/
lemma Blocks.look_code (hstops : kind.Confines stops) :
    ∀ (b : Blocks) (depth : Nat) (more : List Placed),
      look kind stops depth (b.code ++ more) = look kind stops depth more
  | .done, _, _ => rfl
  | .plain p rest, depth, more => by
    rw [Blocks.code, List.cons_append, look_plain hstops depth p.2, Blocks.look_code hstops rest]
  | .conditional opening body arms rest, depth, more => by
    rw [Blocks.code, List.cons_append, List.append_assoc, List.append_assoc,
      look_open hstops depth .conditional (beq_iff_eq.mp opening.2),
      Blocks.look_code hstops body, Arms.look_code hstops arms, Blocks.look_code hstops rest]
  | .switch opening cases rest, depth, more => by
    rw [Blocks.code, List.cons_append, List.append_assoc,
      look_open hstops depth .switch (beq_iff_eq.mp opening.2),
      Cases.look_code hstops cases, Blocks.look_code hstops rest]
  | .loop opening body closing rest, depth, more => by
    rw [Blocks.code, List.cons_append, List.append_assoc, List.cons_append,
      look_open hstops depth .loop (beq_iff_eq.mp opening.2),
      Blocks.look_code hstops body,
      look_close hstops depth .loop (beq_iff_eq.mp closing.2),
      Blocks.look_code hstops rest]

lemma Arms.look_code (hstops : kind.Confines stops) :
    ∀ (arms : Arms) (depth : Nat) (more : List Placed),
      look kind stops (kind.within .conditional depth) (arms.code ++ more) =
        look kind stops depth more
  | .closing p, depth, more =>
    look_close hstops depth .conditional (beq_iff_eq.mp p.2)
  | .else opening body closing, depth, more => by
    have hopening : BlockKind.conditional.parts opening.1.instruction.opcode = true := by
      rw [beq_iff_eq.mp opening.2]
      rfl
    rw [Arms.code, List.cons_append, List.append_assoc, look_part hstops depth .conditional hopening,
      Blocks.look_code hstops body]
    exact look_close hstops depth .conditional (beq_iff_eq.mp closing.2)
  | .elseIf opening body arms, depth, more => by
    have hopening : BlockKind.conditional.parts opening.1.instruction.opcode = true := by
      rw [beq_iff_eq.mp opening.2]
      rfl
    rw [Arms.code, List.cons_append, List.append_assoc, look_part hstops depth .conditional hopening,
      Blocks.look_code hstops body, Arms.look_code hstops arms]

lemma Cases.look_code (hstops : kind.Confines stops) :
    ∀ (cases : Cases) (depth : Nat) (more : List Placed),
      look kind stops (kind.within .switch depth) (cases.code ++ more) =
        look kind stops depth more
  | .closing p, depth, more =>
    look_close hstops depth .switch (beq_iff_eq.mp p.2)
  | .case opening body rest, depth, more => by
    rw [Cases.code, List.cons_append, List.append_assoc,
      look_part hstops depth .switch opening.2, Blocks.look_code hstops body,
      Cases.look_code hstops rest]

end

end Passing

section Found

open Placed

variable (more : List Placed)

lemma confines_nextArm :
    BlockKind.conditional.Confines fun op => op == .else || op == .elseIf || op == .endIf := by
  intro op
  cases op <;> decide

lemma confines_endOfIf : BlockKind.conditional.Confines (· == .endIf) := by
  intro op
  cases op <;> decide

lemma confines_nextCase : BlockKind.switch.Confines fun op => op == .case || op == .case2 := by
  intro op
  cases op <;> decide

lemma confines_endOfSwitch : BlockKind.switch.Confines (· == .endSwitch) := by
  intro op
  cases op <;> decide

lemma confines_nextCaseOrEnd :
    BlockKind.switch.Confines fun op => op == .case || op == .case2 || op == .endSwitch := by
  intro op
  cases op <;> decide

lemma confines_endOfLoop : BlockKind.loop.Confines (· == .endDoWhile) := by
  intro op
  cases op <;> decide

namespace Blocks

variable (b : Blocks)

lemma nextArm_code (arms : Arms) :
    nextArm (b.code ++ (arms.code ++ more)) = some arms.head := by
  refine (b.look_code confines_nextArm 0 (arms.code ++ more)).trans ?_
  cases arms with
  | closing p => exact look_stop (by rw [beq_iff_eq.mp p.2]; rfl)
  | «else» opening => exact look_stop (by rw [beq_iff_eq.mp opening.2]; rfl)
  | elseIf opening => exact look_stop (by rw [beq_iff_eq.mp opening.2]; rfl)

lemma endOfIf_code (closing : Placed.Of (· == .endIf)) :
    endOfIf (b.code ++ closing.1 :: more) = some closing.1 :=
  (b.look_code confines_endOfIf 0 (closing.1 :: more)).trans (look_stop closing.2)

lemma endOfLoop_code (closing : Placed.Of (· == .endDoWhile)) :
    endOfLoop (b.code ++ closing.1 :: more) = some closing.1 :=
  (b.look_code confines_endOfLoop 0 (closing.1 :: more)).trans (look_stop closing.2)

lemma nextCaseOrEnd_code (cases : Cases) :
    nextCaseOrEnd (b.code ++ (cases.code ++ more)) = some cases.head := by
  refine (b.look_code confines_nextCaseOrEnd 0 (cases.code ++ more)).trans ?_
  cases cases with
  | closing p => exact look_stop (by rw [beq_iff_eq.mp p.2]; rfl)
  | case opening =>
    refine look_stop ?_
    have hopening := opening.2
    rw [BlockKind.parts] at hopening
    rw [hopening, Bool.true_or]

lemma nextCase_code : nextCase (b.code ++ more) = nextCase more :=
  b.look_code confines_nextCase 0 more

end Blocks

lemma nextCase_close {p : Placed} (kind : BlockKind) (hkind : .switch ≠ kind)
    (hp : p.instruction.opcode = kind.closes) : nextCase (p :: more) = nextCase more := by
  have hpass : look .switch _ (BlockKind.switch.within kind 0) (p :: more) = nextCase more :=
    look_close confines_nextCase 0 kind hp
  rwa [BlockKind.within, if_neg hkind] at hpass

lemma Arms.nextCase_code (arms : Arms) : nextCase (arms.code ++ more) = nextCase more :=
  arms.look_code confines_nextCase 0 more

/-- Without a case to be found, looking ahead for one goes on past the end of the switch. -/
lemma Cases.nextCase_code (cases : Cases) :
    nextCase (cases.code ++ more) = cases.first?.or (nextCase more) := by
  cases cases with
  | closing p =>
    have hp : p.1.instruction.opcode = .endSwitch := beq_iff_eq.mp p.2
    change look .switch _ 0 (p.1 :: more) = nextCase more
    rw [look_pass fun _ => by rw [hp]; rfl, hp]
    rfl
  | case opening body rest =>
    change look .switch _ 0 (opening.1 :: (body.code ++ rest.code ++ more)) = some opening.1
    exact look_stop opening.2

lemma Cases.endOfSwitch_code : ∀ cases : Cases,
    endOfSwitch (cases.code ++ more) = some cases.last
  | .closing p => by
    change look .switch _ 0 (p.1 :: more) = some p.1
    exact look_stop p.2
  | .case opening body rest => by
    have hopening : opening.1.instruction.opcode ≠ .switch ∧
        opening.1.instruction.opcode ≠ .endSwitch := by
      have hparts := opening.2
      revert hparts
      cases opening.1.instruction.opcode <;> decide
    rw [Cases.code, List.cons_append, List.append_assoc]
    have hpass : look .switch (· == .endSwitch) 0 (opening.1 :: (body.code ++ (rest.code ++ more))) =
        look .switch (· == .endSwitch) 0 (body.code ++ (rest.code ++ more)) := by
      rw [look_pass fun _ => by exact beq_false_of_ne hopening.2, BlockKind.opens,
        BlockKind.closes, if_neg hopening.1, if_neg hopening.2]
    refine hpass.trans ?_
    exact (body.look_code confines_endOfSwitch 0 (rest.code ++ more)).trans
      (Cases.endOfSwitch_code rest)

end Found

end ScriptContainer
