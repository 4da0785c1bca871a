import ScriptContainer.Proofs.Blocks
import ScriptContainer.Proofs.Labels

/-!
# Blocks with ends of their own

Where every block has an end of its own, every instruction with targets finds what it looks for.
So the targets that are set follow from the opcodes and from the ends of the instructions alone, and
in the same way the addresses of labels if each of them has a label instruction.
-/

namespace ScriptContainer

open Placed

namespace BlockKind

/-- The instruction opens or parts a block of this kind. -/
def Holds (kind : BlockKind) (op : Opcode) : Prop := op = kind.opens ∨ kind.parts op = true

/-- Ahead stands an instruction that closes a block of this kind, and up to there as many blocks of
the kind are opened as closed, if `depth` more of them are open. -/
def EndsFrom (kind : BlockKind) (depth : Nat) (code : Body .bound) : Prop :=
  ∃ inside closing after, code = inside ++ closing :: after ∧ closing.opcode = kind.closes ∧
    depth + inside.countP (·.opcode == kind.opens) = inside.countP (·.opcode == kind.closes)

/-- A block of this kind has its own end ahead. -/
abbrev EndsIn (kind : BlockKind) (code : Body .bound) : Prop := kind.EndsFrom 0 code

lemma opens_ne_closes (kind : BlockKind) : kind.opens ≠ kind.closes := by
  cases kind <;> decide

/-- Going on behind an instruction that does not end the scan keeps the balance of what is opened
and closed. -/
lemma balance_cons (kind : BlockKind) {depth : Nat} {i : Instruction .bound}
    (hopen : depth = 0 → i.opcode ≠ kind.closes) (inside : Body .bound) :
    (if i.opcode = kind.opens then depth + 1
        else if i.opcode = kind.closes then depth - 1 else depth) +
        inside.countP (·.opcode == kind.opens) = inside.countP (·.opcode == kind.closes) ↔
      depth + (i :: inside).countP (·.opcode == kind.opens) =
        (i :: inside).countP (·.opcode == kind.closes) := by
  simp only [List.countP_cons, beq_iff_eq]
  by_cases hopens : i.opcode = kind.opens
  · have hcloses : i.opcode ≠ kind.closes := by
      rw [hopens]
      exact kind.opens_ne_closes
    rw [if_pos hopens, if_pos hopens, if_neg hcloses]
    omega
  · rw [if_neg hopens, if_neg hopens]
    by_cases hcloses : i.opcode = kind.closes
    · have hdepth : depth ≠ 0 := fun hd => hopen hd hcloses
      rw [if_pos hcloses, if_pos hcloses]
      omega
    · rw [if_neg hcloses, if_neg hcloses]
      omega

end BlockKind

/-- Every block has an end of its own. -/
def BlocksEnd : Body .bound → Prop
  | [] => True
  | i :: rest => (∀ kind : BlockKind, kind.Holds i.opcode → kind.EndsIn rest) ∧ BlocksEnd rest

section Scan

variable {kind : BlockKind} {depth : Nat}

lemma isSome_scan_of_endsFrom (stops : Opcode → Bool) (hstops : stops kind.closes = true)
    {code : List Placed} (h : kind.EndsFrom depth (code.map instruction)) :
    (look kind stops depth code).isSome = true := by
  induction code generalizing depth with
  | nil =>
    obtain ⟨inside, closing, after, hcode, -⟩ := h
    simp at hcode
  | cons p rest ih =>
    obtain ⟨inside, closing, after, hcode, hclosing, hcount⟩ := h
    by_cases hstop : depth = 0 ∧ stops p.instruction.opcode = true
    · rw [hstop.1, look_stop hstop.2]
      rfl
    have hpass : depth = 0 → stops p.instruction.opcode = false := fun hd => by
      simpa [hd] using hstop
    have hopen : depth = 0 → p.instruction.opcode ≠ kind.closes := fun hd hcloses => by
      have hstopped := hpass hd
      rw [hcloses, hstops] at hstopped
      cases hstopped
    rw [look_pass hpass]
    cases inside with
    | nil =>
      obtain ⟨rfl, -⟩ := List.cons.inj hcode
      exact absurd hclosing (hopen hcount)
    | cons i inside =>
      obtain ⟨hi, hrest⟩ := List.cons.inj hcode
      refine ih ⟨inside, closing, after, hrest, hclosing, ?_⟩
      rwa [kind.balance_cons hopen, hi]

lemma endsFrom_of_look {code : List Placed} {p : Placed}
    (h : look kind (· == kind.closes) depth code = some p) :
    kind.EndsFrom depth (code.map instruction) := by
  induction code generalizing depth with
  | nil => cases h
  | cons q rest ih =>
    by_cases hstop : depth = 0 ∧ (q.instruction.opcode == kind.closes) = true
    · obtain ⟨rfl, hq⟩ := hstop
      exact ⟨[], q.instruction, rest.map instruction, rfl, beq_iff_eq.mp hq, rfl⟩
    have hpass : depth = 0 → (q.instruction.opcode == kind.closes) = false := fun hd => by
      simpa [hd] using hstop
    rw [look_pass hpass] at h
    obtain ⟨inside, closing, after, hcode, hclosing, hcount⟩ := ih h
    refine ⟨q.instruction :: inside, closing, after, ?_, hclosing, ?_⟩
    · rw [List.map_cons, hcode, List.cons_append]
    · refine (kind.balance_cons (fun hd hcloses => ?_) inside).mp hcount
      exact hstop ⟨hd, beq_iff_eq.mpr hcloses⟩

end Scan

section Decidable

instance (kind : BlockKind) (op : Opcode) : Decidable (kind.Holds op) :=
  inferInstanceAs (Decidable (_ ∨ _))

instance (kind : BlockKind) (code : Body .bound) : Decidable (kind.EndsIn code) :=
  decidable_of_iff ((look kind (· == kind.closes) 0 (code.map (⟨·, 0⟩))).isSome = true) (by
    have hcode : (code.map (Placed.mk · 0)).map instruction = code := by
      rw [List.map_map]
      exact List.map_id code
    constructor
    · intro h
      obtain ⟨p, hp⟩ := Option.isSome_iff_exists.mp h
      rw [← hcode]
      exact endsFrom_of_look hp
    · intro h
      rw [← hcode] at h
      exact isSome_scan_of_endsFrom (· == kind.closes) (beq_self_eq_true kind.closes) h)

instance decidableBlocksEnd : (code : Body .bound) → Decidable (BlocksEnd code)
  | [] => isTrue trivial
  | i :: rest =>
    have := decidableBlocksEnd rest
    decidable_of_iff
      (((BlockKind.conditional.Holds i.opcode → BlockKind.conditional.EndsIn rest) ∧
        (BlockKind.switch.Holds i.opcode → BlockKind.switch.EndsIn rest) ∧
        (BlockKind.loop.Holds i.opcode → BlockKind.loop.EndsIn rest)) ∧ BlocksEnd rest)
      (and_congr_left fun _ => ⟨fun ⟨hc, hs, hl⟩ kind => by cases kind <;> assumption,
        fun h => ⟨h .conditional, h .switch, h .loop⟩⟩)

end Decidable

section Opcodes

variable {code other : Body .bound}

lemma BlockKind.EndsFrom.of_opcodes {kind : BlockKind} {depth : Nat} (h : kind.EndsFrom depth code)
    (hsame : code.map Instruction.opcode = other.map Instruction.opcode) :
    kind.EndsFrom depth other := by
  obtain ⟨inside, closing, after, rfl, hclosing, hcount⟩ := h
  rw [List.map_append, List.map_cons, eq_comm, List.map_eq_append_iff] at hsame
  obtain ⟨inside', behind, rfl, hinside, hbehind⟩ := hsame
  obtain ⟨closing', after', rfl, hclosing', -⟩ := List.map_eq_cons_iff.mp hbehind
  have hcountP (op : Opcode) (code : Body .bound) :
      code.countP (·.opcode == op) = (code.map Instruction.opcode).countP (· == op) := by
    rw [List.countP_map]
    rfl
  refine ⟨inside', closing', after', rfl, hclosing'.trans hclosing, ?_⟩
  rw [hcountP, hcountP, hinside, ← hcountP, ← hcountP]
  exact hcount

lemma BlocksEnd.of_opcodes (h : BlocksEnd code)
    (hsame : code.map Instruction.opcode = other.map Instruction.opcode) : BlocksEnd other := by
  induction code generalizing other with
  | nil =>
    obtain rfl := List.map_eq_nil_iff.mp hsame.symm
    trivial
  | cons i rest ih =>
    obtain ⟨j, more, rfl, hj, hmore⟩ := List.map_eq_cons_iff.mp hsame.symm
    refine ⟨fun kind hkind => ?_, ih h.2 hmore.symm⟩
    rw [hj] at hkind
    exact (h.1 kind hkind).of_opcodes hmore.symm

end Opcodes

lemma BlockKind.EndsIn.exists_looks {kind : BlockKind} {rest other : List Placed}
    (h : kind.EndsIn (rest.map Placed.instruction))
    (hsame : rest.map Placed.sight = other.map Placed.sight) (stops : Opcode → Bool)
    (hstops : stops kind.closes = true) :
    ∃ p q, look kind stops 0 rest = some p ∧ look kind stops 0 other = some q ∧
      q.sight = p.sight := by
  obtain ⟨p, hp⟩ := Option.isSome_iff_exists.mp (isSome_scan_of_endsFrom stops hstops h)
  have hsights : (look kind stops 0 rest).map Placed.sight =
      (look kind stops 0 other).map Placed.sight := scan_sight hsame 0
  rw [hp, Option.map_some, eq_comm, Option.map_eq_some_iff] at hsights
  obtain ⟨q, hq, hsight⟩ := hsights
  exact ⟨p, q, hp, hq, hsight⟩

namespace Instruction

lemma retarget_untargeted {rest other : List Placed} (h : rest.map sight = other.map sight)
    (i : Instruction .bound)
    (hends : ∀ kind : BlockKind, kind.Holds i.opcode → kind.EndsIn (rest.map instruction)) :
    i.untargeted.retarget other = i.retarget rest := by
  have harm (hi : BlockKind.conditional.Holds i.opcode) :
      ∃ p q, nextArm rest = some p ∧ nextArm other = some q ∧ q.sight = p.sight :=
    (hends .conditional hi).exists_looks h (fun op => op == .else || op == .elseIf || op == .endIf) rfl
  have hif (hi : BlockKind.conditional.Holds i.opcode) :
      ∃ p q, endOfIf rest = some p ∧ endOfIf other = some q ∧ q.sight = p.sight :=
    (hends .conditional hi).exists_looks h (· == .endIf) rfl
  have hswitch (hi : BlockKind.switch.Holds i.opcode) :
      ∃ p q, endOfSwitch rest = some p ∧ endOfSwitch other = some q ∧ q.sight = p.sight :=
    (hends .switch hi).exists_looks h (· == .endSwitch) rfl
  have hcase (hi : BlockKind.switch.Holds i.opcode) :
      ∃ p q, nextCaseOrEnd rest = some p ∧ nextCaseOrEnd other = some q ∧ q.sight = p.sight :=
    (hends .switch hi).exists_looks h (fun op => op == .case || op == .case2 || op == .endSwitch) rfl
  have hloop (hi : BlockKind.loop.Holds i.opcode) :
      ∃ p q, endOfLoop rest = some p ∧ endOfLoop other = some q ∧ q.sight = p.sight :=
    (hends .loop hi).exists_looks h (· == .endDoWhile) rfl
  have htarget {p q : Placed} (hsight : q.sight = p.sight) : q.target = p.target :=
    congrArg (fun seen => seen.2 / 4) hsight
  cases i with
  | «if» =>
    obtain ⟨p, q, hp, hq, hsight⟩ := harm (.inl rfl)
    rw [untargeted, retarget, retarget, hp, hq]
    dsimp only
    rw [armTargets_congr hsight]
  | elseIf =>
    obtain ⟨p, q, hp, hq, hsight⟩ := harm (.inr rfl)
    rw [untargeted, retarget, retarget, hp, hq]
    dsimp only
    rw [armTargets_congr hsight]
  | «else» target =>
    obtain ⟨p, q, hp, hq, hsight⟩ := hif (.inr rfl)
    rw [untargeted, retarget, retarget, hp, hq, Option.map_some, Option.map_some, htarget hsight]
    rfl
  | case value target | case2 value target =>
    obtain ⟨p, q, hp, hq, hsight⟩ := hcase (.inr rfl)
    rw [untargeted, retarget, retarget, hp, hq, Option.map_some, Option.map_some, htarget hsight]
    rfl
  | doWhile condition target =>
    obtain ⟨p, q, hp, hq, hsight⟩ := hloop (.inl rfl)
    rw [untargeted, retarget, retarget, hp, hq, Option.map_some, Option.map_some, htarget hsight]
    rfl
  | switch value entry exit =>
    obtain ⟨p, q, hp, hq, hsight⟩ := hswitch (.inl rfl)
    have hnext : (nextCase other).map sight = (nextCase rest).map sight := scan_sight h.symm 0
    rw [untargeted, retarget_switch_of_some hp, retarget_switch_of_some hq,
      target_getD_congr hnext hsight, htarget hsight]
  | _ => rfl

end Instruction

namespace Placed

variable {code other : Body .bound} {ends : List UInt32}

lemma map_sight_congr (h : untargetedCode code = untargetedCode other) (ends : List UInt32) :
    (code.zipWith mk ends).map sight = (other.zipWith mk ends).map sight := by
  have hsight (code : Body .bound) : (code.zipWith mk ends).map sight =
      (code.map Instruction.opcode).zipWith Prod.mk ends := by
    rw [List.map_zipWith, List.zipWith_map_left]
    rfl
  rw [hsight, hsight, opcodes_of_untargeted h]

lemma retargetAll_congr (h : untargetedCode code = untargetedCode other)
    (hlength : ends.length = code.length) (hends : BlocksEnd code) :
    retargetAll (code.zipWith mk ends) = retargetAll (other.zipWith mk ends) := by
  induction code generalizing other ends with
  | nil =>
    obtain rfl := untargetedCode_eq_nil h.symm
    rfl
  | cons i rest ih =>
    obtain ⟨j, more, rfl, hj, hmore⟩ := untargetedCode_cons_iff.mp h.symm
    cases ends with
    | nil => cases hlength
    | cons stop ends =>
      have hlength := Nat.succ.inj hlength
      have hfound (j : Instruction .bound) (hij : i.untargeted = j.untargeted)
          (more : Body .bound) (hmore : untargetedCode rest = untargetedCode more) :
          i.untargeted.retarget (rest.zipWith mk ends) = j.retarget (more.zipWith mk ends) := by
        have hopcodes := opcodes_of_untargeted hmore
        have hopcode : i.opcode = j.opcode := by
          rw [← i.opcode_untargeted, hij, j.opcode_untargeted]
        rw [hij]
        refine j.retarget_untargeted (map_sight_congr hmore.symm ends) fun kind hkind => ?_
        have hlength' := hlength.trans (length_of_untargeted hmore)
        rw [map_instruction_zipWith hlength']
        rw [← hopcode] at hkind
        exact (hends.1 kind hkind).of_opcodes hopcodes
      rw [List.zipWith_cons_cons, List.zipWith_cons_cons, retargetAll, retargetAll,
        ih hmore.symm hlength hends.2]
      exact congrArg (· :: _) ((hfound i rfl rest rfl).symm.trans (hfound j hj.symm more hmore.symm))

end Placed

namespace Function

lemma addressLabels_congr {labels other : Registry Label} {ends : List UInt32}
    (h : unaddressedLabels labels = unaddressedLabels other) (hcount : labels.size ≤ ends.length) :
    addressLabels labels ends = addressLabels other ends := by
  have hsame : unaddressedLabels (addressLabels labels ends) =
      unaddressedLabels (addressLabels other ends) := by
    rw [unaddressedLabels_addressLabels, h, unaddressedLabels_addressLabels]
  have hcount' : other.size ≤ ends.length := by
    have hsize := congrArg Registry.size h
    rw [unaddressedLabels, unaddressedLabels, Registry.size_map, Registry.size_map] at hsize
    rwa [← hsize]
  have hrecords := congrArg (fun r : Registry Label => r.records.reverse) hsame
  simp only [unaddressedLabels, Registry.records_map, ← List.map_reverse] at hrecords
  refine Registry.ext (List.reverse_injective (List.ext_getElem? fun k => ?_))
  have hk := congrArg (fun ls => ls[k]?) hrecords
  simp only [List.getElem?_map] at hk
  cases hl : (addressLabels labels ends).records.reverse[k]? with
  | none =>
    rw [hl, Option.map_none, eq_comm, Option.map_eq_none_iff] at hk
    exact hk.symm
  | some l =>
    rw [hl, Option.map_some, eq_comm, Option.map_eq_some_iff] at hk
    obtain ⟨l', hl', hunaddressed⟩ := hk
    obtain ⟨stop, hstop, haddress⟩ := exists_address hcount hl
    obtain ⟨stop', hstop', haddress'⟩ := exists_address hcount' hl'
    obtain rfl := Option.some.inj (hstop.symm.trans hstop')
    rw [hl']
    obtain ⟨id, name, address⟩ := l
    obtain ⟨id', name', address'⟩ := l'
    obtain ⟨rfl, rfl, -⟩ := Label.mk.inj hunaddressed
    rw [show address = _ from haddress, show address' = _ from haddress']

/-- Every block has an end of its own, and every label a label instruction of its own. -/
structure Determined (f : Function) : Prop where
  blocks : BlocksEnd f.code
  labels : f.labels.size ≤ f.code.countP Instruction.isLabel

variable {options : Options} {f g f' g' : Function} {ends : List UInt32}

instance (f : Function) : Decidable f.Determined :=
  decidable_of_iff (BlocksEnd f.code ∧ f.labels.size ≤ f.code.countP Instruction.isLabel)
    ⟨fun h => ⟨h.1, h.2⟩, fun h => ⟨h.1, h.2⟩⟩

lemma Determined.of_retains (h : f.Determined) (hfg : f.Retains g) : g.Determined := by
  have hsize : g.labels.size = f.labels.size := by
    have hlength := congrArg List.length hfg.labels
    rwa [List.length_map, List.length_map] at hlength
  refine ⟨h.blocks.of_opcodes (opcodes_of_untargeted hfg.code).symm, ?_⟩
  rw [hsize, countP_isLabel hfg.code]
  exact h.labels

lemma fix_congr (h : f'.untargeted = f.untargeted) (hf : f.Determined)
    (hg : f.fix options ends = .ok g) (hg' : f'.fix options ends = .ok g') : g' = g := by
  obtain ⟨hlength, hcode, hlabels⟩ := eq_of_fix hg
  obtain ⟨hlength', hcode', hlabels'⟩ := eq_of_fix hg'
  have huntargeted := ((fix_yields options hlength).of_ok hg).1
  have huntargeted' := ((fix_yields options hlength').of_ok hg').1
  have hsame : untargetedCode f'.code = untargetedCode f.code := congrArg Function.code h
  have hcodes : g'.code = g.code := by
    rw [hcode, hcode', retargetAll_congr hsame.symm hlength hf.blocks]
  have haddresses : g'.labels = g.labels := by
    rw [hlabels, hlabels', markers_congr (map_sight_congr hsame ends)]
    refine (addressLabels_congr (congrArg Function.labels h).symm ?_).symm
    rw [length_markers hlength]
    exact hf.labels
  change { g'.untargeted with labels := g'.labels, code := g'.code } =
    { g.untargeted with labels := g.labels, code := g.code }
  rw [huntargeted', h, ← huntargeted, hcodes, haddresses]

end Function

end ScriptContainer
