import ScriptContainer.Proofs.Consuming
import ScriptContainer.Proofs.Decodes

/-!
# What has been decoded

An instruction that has been decoded, from whatever bytes, is an instruction in numbers with each
of its numbers looked up in the context, and the bytes are the words of the numbers. The flag of
the first word tells the shape of the operands apart, but for operands that are written alike in
both shapes.
-/

namespace ScriptContainer

open Marker

/-- The flag chooses between two shapes of the operands. The operand of `unsure2` has one shape. -/
def Opcode.choosesShape (opcode : Opcode) : Bool := opcode.acceptsConstant && opcode != .unsure2

/-- The first word of an instruction carries the flag for the constant shape. -/
def isFlagged (first : UInt32) : Bool := first &&& constantFlag != 0

variable {S T : Slots}

/-- An expression without tokens, which is written alike in both shapes. -/
def Operand.fitsBothShapes : Operand S → Bool
  | var _ => false
  | expr tokens => tokens.isEmpty

/-- The operands have two shapes and are written alike in both. -/
def Instruction.fitsBothShapes : Instruction S → Bool
  | returnVal value | deleteRuntime value | wait value | waitMs value | waitCompleted value =>
    value.fitsBothShapes
  | doWhile condition _ => condition.fitsBothShapes
  | set _ value => value.fitsBothShapes
  | call c | callAsThread c | callAsChildThread c => c.args.isEmpty
  | _ => false

section Changing

variable {f : S.Change T (Except Error)}

lemma Call.isEmpty_args_change {c : Call S} {d : Call T} (h : c.change f = .ok d) :
    d.args.isEmpty = c.args.isEmpty := by
  obtain ⟨callee, args⟩ := c
  rw [change] at h
  obtain ⟨_, -, h⟩ := bind_eq_ok_iff.mp h
  obtain ⟨args', hargs, h⟩ := bind_eq_ok_iff.mp h
  obtain rfl := pure_eq_ok_iff.mp h
  cases args with
  | nil =>
    obtain rfl := pure_eq_ok_iff.mp hargs
    rfl
  | cons arg args =>
    rw [changeArguments] at hargs
    obtain ⟨_, -, hargs⟩ := bind_eq_ok_iff.mp hargs
    obtain ⟨_, -, hargs⟩ := bind_eq_ok_iff.mp hargs
    obtain rfl := pure_eq_ok_iff.mp hargs
    rfl

lemma Operand.fitsBothShapes_change {a : Operand S} {b : Operand T} (h : a.change f = .ok b) :
    b.fitsBothShapes = a.fitsBothShapes := by
  cases a with
  | var ref =>
    obtain ⟨_, -, rfl⟩ := map_eq_ok_iff.mp h
    rfl
  | expr tokens =>
    obtain ⟨_, ht, rfl⟩ := map_eq_ok_iff.mp h
    exact isEmpty_changeTokens ht

lemma Instruction.fitsBothShapes_change {i : Instruction S} {j : Instruction T}
    (h : i.change f = .ok j) : j.fitsBothShapes = i.fitsBothShapes := by
  cases i <;>
    simp only [change, bind_eq_ok_iff, map_eq_ok_iff, pure_eq_ok_iff] at h <;>
    grind [fitsBothShapes, Operand.fitsBothShapes_change, Call.isEmpty_args_change]

end Changing

namespace Call

variable {constant : Bool}

lemma isConstant_eq {c : Call S} (h : ∀ arg ∈ c.args, arg.isSymbol = constant) :
    c.isConstant = (constant || c.args.isEmpty) := by
  obtain ⟨callee, args⟩ := c
  cases args with
  | nil => rw [List.isEmpty_nil, Bool.or_true]; rfl
  | cons arg args =>
    rw [List.isEmpty_cons, Bool.or_false, isConstant, List.all_cons, h arg List.mem_cons_self]
    cases constant with
    | true =>
      rw [Bool.true_and, List.all_eq_true]
      exact fun other hother => h other (List.mem_cons_of_mem _ hother)
    | false => rfl

lemma words_isConstant {c : Call .numbered} (h : ∀ arg ∈ c.args, arg.isSymbol = constant) :
    c.words c.isConstant = c.words constant := by
  have hshape := isConstant_eq h
  obtain ⟨callee, args⟩ := c
  cases args with
  | nil => rfl
  | cons arg args =>
    rw [List.isEmpty_cons, Bool.or_false] at hshape
    rw [hshape]

end Call

namespace Decode

variable {α β : Type} {k : Bool}

/-- From the shape `k` on, an answer fits the words that are taken up for it. -/
def Gathers (k : Bool) (run : Decode α) (good : α → List UInt32 → Prop) : Prop :=
  ∀ r : Reader, Outcome (run ⟨r, k⟩)
    (fun x c => ∃ ws, good x ws ∧ r.Passes c.reader (bytesOfWords ws)) fun _ => True

namespace Gathers

variable {run : Decode α} {good : α → List UInt32 → Prop} {good' : β → List UInt32 → Prop}

lemma pure {x : α} (h : good x []) : Gathers k (Pure.pure x) good :=
  fun r => ⟨[], h, .refl r⟩

lemma throw (e : Error) : Gathers k (throw e : Decode α) good := fun _ => trivial

lemma endOfData : Gathers k (endOfData : Decode α) good := fun _ => trivial

lemma bind {next : α → Decode β} (h : Gathers k run good)
    (hnext : ∀ x ws k', good x ws → Gathers k' (next x) fun y ws' => good' y (ws ++ ws')) :
    Gathers k (run >>= next) good' := by
  intro r
  refine (h r).bind fun x c hx => ?_
  obtain ⟨ws, hgood, hpasses⟩ := hx
  refine (hnext x ws c.constant hgood c.reader).mono (fun y d hy => ?_) fun _ he => he
  obtain ⟨ws', hgood', hpasses'⟩ := hy
  refine ⟨ws ++ ws', hgood', ?_⟩
  have hwords : bytesOfWords (ws ++ ws') = bytesOfWords ws ++ bytesOfWords ws' :=
    List.flatMap_append
  rw [hwords]
  exact hpasses.trans hpasses'

lemma bind_last {f : α → β} (h : Gathers k run good) (hf : ∀ x ws, good x ws → good' (f x) ws) :
    Gathers k (run >>= fun x => Pure.pure (f x)) good' := by
  refine h.bind fun x ws k' hx => .pure ?_
  rw [List.append_nil]
  exact hf x ws hx

lemma map {f : α → β} (h : Gathers k run good) (hf : ∀ x ws, good x ws → good' (f x) ws) :
    Gathers k (f <$> run) good' := by
  intro r
  have hrun := h r
  cases hresult : run ⟨r, k⟩ with
  | ok x c =>
    rw [map_of_ok hresult]
    obtain ⟨ws, hgood, hpasses⟩ := hrun.of_ok hresult
    exact ⟨ws, hf x ws hgood, hpasses⟩
  | error e c =>
    rw [map_of_error hresult]
    trivial

lemma word_bind {next : UInt32 → Decode α}
    (h : ∀ w, Gathers k (next w) fun x ws => good x (w :: ws)) :
    Gathers k (word >>= next) good := by
  intro r
  cases hread : Read.word r with
  | ok w t =>
    have hword : word ⟨r, k⟩ = .ok w ⟨t, k⟩ := by
      unfold word ofRead
      rw [hread]
    rw [bind_of_ok hword]
    refine (h w t).mono (fun x c hx => ?_) fun _ he => he
    obtain ⟨ws, hgood, hpasses⟩ := hx
    exact ⟨w :: ws, hgood, (Read.word_passes hread).trans hpasses⟩
  | error e t =>
    have hword : word ⟨r, k⟩ = .error e ⟨t, k⟩ := by
      unfold word ofRead
      rw [hread]
    rw [bind_of_error hword]
    trivial

lemma word : Gathers k word fun w ws => [w] = ws := by
  have h : Gathers k (Decode.word >>= Pure.pure) fun w ws => [w] = ws :=
    word_bind fun w => .pure rfl
  rwa [bind_pure] at h

lemma except_bind {result : Except Error α} {next : α → Decode β}
    (h : ∀ x, result = .ok x → Gathers k (next x) good') :
    Gathers k (ofExcept result >>= next) good' := by
  cases result with
  | ok x => exact h x rfl
  | error e => exact fun _ => trivial

lemma slot_bind {find : Key → Except Error α} {next : α → Decode β}
    (h : ∀ w x, find (.id w) = .ok x → Gathers k (next x) fun y ws => good' y (w :: ws)) :
    Gathers k (slot find >>= next) good' := by
  unfold slot
  rw [bind_assoc]
  exact word_bind fun w => except_bind fun x hx => h w x hx

lemma slot (find : Key → Except Error α) :
    Gathers k (slot find) fun x ws => ∃ w, find (.id w) = .ok x ∧ [w] = ws := by
  have h : Gathers k (Decode.slot find >>= Pure.pure) fun x ws =>
      ∃ w, find (.id w) = .ok x ∧ [w] = ws :=
    slot_bind fun w x hx => .pure ⟨w, hx, rfl⟩
  rwa [bind_pure] at h

lemma offset_bind {next : Nat → Decode α} (h : ∀ offset, Gathers k (next offset) good) :
    Gathers k (ofRead Read.offset >>= next) good := fun r => h r.offset r

lemma enoughSteps_bind {next : Nat → Decode α} (h : ∀ steps, Gathers k (next steps) good) :
    Gathers k (enoughSteps >>= next) good := fun r => h (r.remaining + 1) r

lemma isConstant_bind {next : Bool → Decode α} (h : Gathers k (next k) good) :
    Gathers k (isConstant >>= next) good := fun r => h r

lemma setConstant_bind {constant : Bool} {next : Unit → Decode α}
    (h : Gathers constant (next ()) good) : Gathers k (setConstant constant >>= next) good :=
  fun r => h r

lemma slotsUntil (stop : UInt32) (find : UInt32 → Except Error α) (steps : Nat) :
    Gathers k (slotsUntil stop find steps) fun xs ws =>
      ∃ vs : List UInt32, vs.mapM find = .ok xs ∧ vs ++ [stop] = ws ∧ vs.all (· != stop) := by
  induction steps with
  | zero => exact endOfData
  | succ steps ih =>
    refine word_bind fun w => ?_
    split
    case isTrue h => exact .pure ⟨[], rfl, by rw [h]; rfl, rfl⟩
    case isFalse h =>
      refine except_bind fun x hx => ih.bind_last ?_
      rintro xs _ ⟨vs, hvs, rfl, hclear⟩
      refine ⟨w :: vs, by rw [List.mapM_cons, hx, ok_bind, hvs]; rfl, rfl, ?_⟩
      rw [List.all_cons, hclear, Bool.and_true]
      exact bne_iff_ne.mpr h

end Gathers

section Expressions

mutual

/-- The first word has been read before: it stands in front of the words that are taken up. -/
lemma tokensFrom_gathers (ctx : Context) (k : Bool) (steps : Nat) (first : UInt32) :
    Gathers k (tokensFrom ctx steps first) fun ts ws =>
      ∃ ns, changeTokens ctx.wordBinding ns = .ok ts ∧ expressionWords ns = first :: ws ∧
        clearTokens ns := by
  match steps with
  | 0 => exact .endOfData
  | steps + 1 =>
    rw [tokensFrom]
    split
    case isTrue h => exact .pure ⟨[], rfl, by rw [h]; rfl, rfl⟩
    case isFalse h =>
      refine (token_gathers ctx k steps h).bind ?_
      rintro t ws k' ⟨n, hn, hwords, hclear⟩
      refine .word_bind fun next => (tokensFrom_gathers ctx k' steps next).bind_last ?_
      rintro ts more ⟨ns, hns, hmore, hclears⟩
      refine ⟨n :: ns, by rw [changeTokens, hn, ok_bind, hns]; rfl, ?_, ?_⟩
      · rw [expressionWords, hwords, hmore, List.cons_append]
      · rw [clearTokens, hclear, hclears]
        rfl

lemma token_gathers (ctx : Context) (k : Bool) (steps : Nat) {first : UInt32}
    (hopen : first ≠ exprEnd) :
    Gathers k (token ctx steps first) fun t ws => ∃ n : Token .numbered,
      n.change ctx.wordBinding = .ok t ∧ n.words = first :: ws ∧ n.isClear := by
  match steps with
  | 0 => exact .endOfData
  | steps + 1 =>
    rw [token]
    split
    case isTrue h =>
      refine .setConstant_bind ((callFrom_gathers ctx false steps false).bind_last ?_)
      rintro c ws ⟨n, hn, hwords, -, hclear⟩
      refine ⟨.call n, by rw [Token.change, hn]; rfl, by rw [Token.words, hwords, h], ?_⟩
      exact n.isClear_eq.trans hclear
    case isFalse hstart =>
      cases hoperator : Operator.ofCode? first with
      | some operator =>
        have hbound : ctx.wordBinding.operator first = .ok operator := by
          change Context.orUnknown (Operator.ofCode? first) _ _ = _
          rw [hoperator]
          rfl
        exact .pure ⟨.operator first, by rw [Token.change, hbound]; rfl, rfl,
          by rw [Token.isClear, hoperator]; rfl⟩
      | none =>
        refine .except_bind fun symbol hsymbol => ?_
        have hbound : ctx.wordBinding.symbol first = .ok symbol := hsymbol
        refine .pure ⟨.symbol first, by rw [Token.change, hbound]; rfl, rfl, ?_⟩
        simp only [Token.isClear, Bool.and_eq_true, bne_iff_ne, Option.isNone_iff_eq_none]
        exact ⟨⟨hopen, hstart⟩, hoperator⟩

lemma callFrom_gathers (ctx : Context) (k : Bool) (steps : Nat) (constant : Bool) :
    Gathers k (callFrom ctx steps constant) fun c ws => ∃ n : Call .numbered,
      n.change ctx.wordBinding = .ok c ∧ n.words constant = ws ∧
        (∀ arg ∈ n.args, arg.isSymbol = constant) ∧ n.args.all (Argument.isClearAs constant) := by
  match steps with
  | 0 => exact .endOfData
  | steps + 1 =>
    rw [callFrom]
    refine .slot_bind fun w callee hcallee => ?_
    have hbound : ctx.wordBinding.callee w = .ok callee := hcallee
    refine (argumentsFrom_gathers ctx k steps constant).bind_last ?_
    rintro args ws ⟨ns, hns, hwords, hkind, hclear⟩
    refine ⟨⟨w, ns⟩, by rw [Call.change, hbound, ok_bind, hns]; rfl, ?_, hkind, hclear⟩
    rw [Call.words, hwords]

lemma argumentsFrom_gathers (ctx : Context) (k : Bool) (steps : Nat) (constant : Bool) :
    Gathers k (argumentsFrom ctx steps constant) fun args ws => ∃ ns,
      changeArguments ctx.wordBinding ns = .ok args ∧ argumentWords constant ns = ws ∧
        (∀ arg ∈ ns, arg.isSymbol = constant) ∧ ns.all (Argument.isClearAs constant) := by
  match steps with
  | 0 => exact .endOfData
  | steps + 1 =>
    rw [argumentsFrom]
    refine .word_bind fun first => ?_
    split
    case isTrue h => exact .pure ⟨[], rfl, by rw [h]; rfl, List.forall_mem_nil _, rfl⟩
    case isFalse h =>
      refine (argument_gathers ctx k steps constant h).bind ?_
      rintro arg ws k' ⟨n, hn, hwords, hkind, hclear⟩
      refine (argumentsFrom_gathers ctx k' steps constant).bind_last ?_
      rintro args more ⟨ns, hns, hmore, hkinds, hclears⟩
      refine ⟨n :: ns, by rw [changeArguments, hn, ok_bind, hns]; rfl, ?_,
        List.forall_mem_cons.mpr ⟨hkind, hkinds⟩, by rw [List.all_cons, hclear, hclears]; rfl⟩
      rw [argumentWords, hwords, hmore, List.cons_append]

lemma argument_gathers (ctx : Context) (k : Bool) (steps : Nat) (constant : Bool) {first : UInt32}
    (hopen : first ≠ callEnd) :
    Gathers k (argument ctx steps constant first) fun arg ws => ∃ n : Argument .numbered,
      n.change ctx.wordBinding = .ok arg ∧ n.words constant = first :: ws ∧
        n.isSymbol = constant ∧ n.isClearAs constant := by
  match steps with
  | 0 => exact .endOfData
  | steps + 1 =>
    rw [argument]
    cases constant with
    | true =>
      refine .except_bind fun symbol hsymbol => ?_
      have hbound : ctx.wordBinding.symbol first = .ok symbol := hsymbol
      exact .pure ⟨.symbol first, by rw [Argument.change, hbound]; rfl, rfl, rfl,
        bne_iff_ne.mpr hopen⟩
    | false =>
      refine (tokensFrom_gathers ctx k steps first).bind_last ?_
      rintro tokens ws ⟨ns, hns, hwords, hclear⟩
      refine ⟨.expr ns, by rw [Argument.change, hns]; rfl, hwords, rfl, ?_⟩
      rw [Argument.isClearAs, if_neg Bool.false_ne_true, Argument.isClear, hwords, List.head?_cons,
        hclear, Bool.and_true, bne_iff_ne]
      exact fun h => hopen (Option.some.inj h)

end

end Expressions

section Operands

variable {ctx : Context}

lemma var_bind {next : VarRef → Decode α} {good : α → List UInt32 → Prop}
    (h : ∀ w ref, ctx.wordBinding.var w = .ok ref →
      Gathers k (next ref) fun x ws => good x (w :: ws)) : Gathers k (var ctx >>= next) good :=
  .slot_bind h

lemma table_bind {next : TableRef → Decode α} {good : α → List UInt32 → Prop}
    (h : ∀ w ref, ctx.wordBinding.table w = .ok ref →
      Gathers k (next ref) fun x ws => good x (w :: ws)) :
    Gathers k (slot ctx.findTable >>= next) good :=
  .slot_bind h

lemma expression_gathers :
    Gathers k (expression ctx) fun ts ws =>
      ∃ ns, changeTokens ctx.wordBinding ns = .ok ts ∧ expressionWords ns = ws ∧ clearTokens ns :=
  .enoughSteps_bind fun steps => .word_bind fun first => tokensFrom_gathers ctx k steps first

/-- Without the flag the shape is the constant one only for an expression without tokens. -/
lemma operand_gathers :
    Gathers k (operand ctx) fun value ws => ∃ n : Operand .numbered,
      n.change ctx.wordBinding = .ok value ∧ n.words = ws ∧
        n.isConstant = (k || n.fitsBothShapes) ∧ n.isClear := by
  refine .isConstant_bind ?_
  cases k with
  | true =>
    refine .word_bind fun w => ?_
    split
    -- The closing word of an expression stands for one without tokens.
    case isTrue h => exact .pure ⟨.expr [], rfl, by rw [h]; rfl, rfl, rfl⟩
    case isFalse h =>
      refine .except_bind fun ref href => ?_
      have hbound : ctx.wordBinding.var w = .ok ref := href
      exact .pure ⟨.var w, by rw [Operand.change, hbound]; rfl, rfl, rfl, bne_iff_ne.mpr h⟩
  | false =>
    refine expression_gathers.bind_last ?_
    rintro tokens ws ⟨ns, hns, hwords, hclear⟩
    exact ⟨.expr ns, by rw [Operand.change, hns]; rfl, hwords, rfl, hclear⟩

lemma spawn_gathers :
    Gathers k (spawn ctx) fun spawn ws => ∃ n : Spawn .numbered,
      n.change ctx.wordBinding = .ok spawn ∧ n.words = ws ∧ n.isClear := by
  refine .slot_bind fun w callee hcallee => .enoughSteps_bind fun steps => ?_
  have hbound : ctx.wordBinding.callee w = .ok callee := hcallee
  refine (Gathers.slotsUntil argsEnd _ steps).bind ?_
  rintro take _ k' ⟨vs, hvs, rfl, htakes⟩
  have htake : vs = take := Except.ok.inj ((mapM_ok vs).symm.trans hvs)
  refine (Gathers.slotsUntil callEnd _ steps).bind_last ?_
  rintro give _ ⟨gs, hgs, rfl, hgives⟩
  have hgive : gs.mapM ctx.wordBinding.var = .ok give := hgs
  refine ⟨⟨w, take, gs⟩, by rw [Spawn.change, hbound, ok_bind, hgive]; rfl, ?_, ?_⟩
  · rw [htake, Spawn.words]
    simp only [List.append_assoc, List.cons_append, List.nil_append]
  · rw [Spawn.isClear, ← htake, htakes, hgives]
    rfl

lemma callOperand_gathers :
    Gathers k (callOperand ctx) fun c ws => ∃ n : Call .numbered,
      n.change ctx.wordBinding = .ok c ∧ n.words n.isConstant = ws ∧
        n.isConstant = (k || n.args.isEmpty) ∧ n.isClearOperand := by
  refine .isConstant_bind (.enoughSteps_bind fun steps r => ?_)
  -- All arguments are of the kind that the flag says. This settles the shape unless there are none.
  refine (callFrom_gathers ctx k steps k r).mono ?_ fun _ he => he
  rintro c d ⟨ws, ⟨n, hn, hwords, hkind, hclear⟩, hpasses⟩
  exact ⟨ws, ⟨n, hn, (Call.words_isConstant hkind).trans hwords, Call.isConstant_eq hkind,
    Call.isClearOperand_of_all hclear⟩, hpasses⟩

end Operands

end Decode

/-- The words are those of the operands, in the shape `k` where the opcode has two shapes, and none of
them can be taken for another one. -/
structure Instruction.Matches (n : Instruction .numbered) (opcode : Opcode) (k : Bool)
    (ws : List UInt32) : Prop where
  isOpcode : n.opcode = opcode
  words : n.operandWords = ws
  isClear : n.isClear
  shape : opcode.choosesShape → n.isConstant = (k || n.fitsBothShapes)

lemma Instruction.Matches.plain {n : Instruction .numbered} {k : Bool} {ws : List UInt32}
    (h : n.opcode.choosesShape = false) (hwords : n.operandWords = ws) (hclear : n.isClear) :
    n.Matches n.opcode k ws :=
  ⟨rfl, hwords, hclear, fun hc => by rw [h] at hc; cases hc⟩

namespace Decode

section Instructions

variable {α β : Type} {k : Bool} {ctx : Context}

lemma only_operand {run : Decode α} {look : β → Except Error α} {fits : β → List UInt32 → Prop}
    {opcode : Opcode} (h : Gathers k run fun a ws => ∃ b, look b = .ok a ∧ fits b ws)
    (numbered : β → Instruction .numbered) (bound : α → Instruction .bound)
    (hchange : ∀ b, (numbered b).change ctx.wordBinding = bound <$> look b)
    (hmatches : ∀ b ws, fits b ws → (numbered b).Matches opcode k ws) :
    Gathers k (bound <$> run) fun i ws => ∃ n : Instruction .numbered,
      n.change ctx.wordBinding = .ok i ∧ n.Matches opcode k ws := by
  apply h.map
  rintro a ws ⟨b, hb, hfits⟩
  exact ⟨numbered b, (hchange b).trans (map_eq_ok_iff.mpr ⟨a, hb, rfl⟩), hmatches b ws hfits⟩

lemma operands_gathers (first : UInt32) (offset : Nat) (opcode : Opcode) :
    Gathers k (operands ctx first offset opcode) fun i ws => ∃ n : Instruction .numbered,
      n.change ctx.wordBinding = .ok i ∧ n.Matches opcode k ws := by
  cases opcode with
  | nop => exact .pure ⟨.nop, rfl, .plain rfl rfl rfl⟩
  | label => exact .pure ⟨.label, rfl, .plain rfl rfl rfl⟩
  | «return» => exact .pure ⟨.return, rfl, .plain rfl rfl rfl⟩
  | endIf => exact .pure ⟨.endIf, rfl, .plain rfl rfl rfl⟩
  | breakSwitch => exact .pure ⟨.breakSwitch, rfl, .plain rfl rfl rfl⟩
  | endSwitch => exact .pure ⟨.endSwitch, rfl, .plain rfl rfl rfl⟩
  | «break» => exact .pure ⟨.break, rfl, .plain rfl rfl rfl⟩
  | endDoWhile => exact .pure ⟨.endDoWhile, rfl, .plain rfl rfl rfl⟩
  | unsure1 => exact .pure ⟨.unsure1, rfl, .plain rfl rfl rfl⟩
  | «else» => exact Gathers.word.map fun w ws hw => ⟨.else w, rfl, .plain rfl hw rfl⟩
  | returnVal =>
    exact only_operand operand_gathers .returnVal .returnVal (fun _ => rfl)
      fun _ _ h => ⟨rfl, h.1, h.2.2, fun _ => h.2.1⟩
  | deleteRuntime =>
    exact only_operand operand_gathers .deleteRuntime .deleteRuntime (fun _ => rfl)
      fun _ _ h => ⟨rfl, h.1, h.2.2, fun _ => h.2.1⟩
  | wait =>
    exact only_operand operand_gathers .wait .wait (fun _ => rfl)
      fun _ _ h => ⟨rfl, h.1, h.2.2, fun _ => h.2.1⟩
  | waitMs =>
    exact only_operand operand_gathers .waitMs .waitMs (fun _ => rfl)
      fun _ _ h => ⟨rfl, h.1, h.2.2, fun _ => h.2.1⟩
  | waitCompleted =>
    exact only_operand operand_gathers .waitCompleted .waitCompleted (fun _ => rfl)
      fun _ _ h => ⟨rfl, h.1, h.2.2, fun _ => h.2.1⟩
  | thread =>
    exact only_operand spawn_gathers .thread .thread (fun _ => rfl)
      fun _ _ h => .plain rfl h.1 h.2
  | thread2 =>
    exact only_operand spawn_gathers .thread2 .thread2 (fun _ => rfl)
      fun _ _ h => .plain rfl h.1 h.2
  | call =>
    exact only_operand callOperand_gathers .call .call (fun _ => rfl)
      fun _ _ h => ⟨rfl, h.1, h.2.2, fun _ => h.2.1⟩
  | callAsThread =>
    exact only_operand callOperand_gathers .callAsThread .callAsThread (fun _ => rfl)
      fun _ _ h => ⟨rfl, h.1, h.2.2, fun _ => h.2.1⟩
  | callAsChildThread =>
    exact only_operand callOperand_gathers .callAsChildThread .callAsChildThread (fun _ => rfl)
      fun _ _ h => ⟨rfl, h.1, h.2.2, fun _ => h.2.1⟩
  | unsure2 =>
    exact only_operand expression_gathers .unsure2 .unsure2 (fun _ => rfl)
      fun _ _ h => .plain rfl h.1 h.2
  | unsure9 =>
    exact only_operand expression_gathers .unsure9 .unsure9 (fun _ => rfl)
      fun _ _ h => .plain rfl h.1 h.2
  | unsure4 =>
    exact (Gathers.slot ctx.findVariable).map fun ref _ ⟨w, hw, hwords⟩ =>
      ⟨.unsure4 w, map_eq_ok_iff.mpr ⟨ref, hw, rfl⟩, .plain rfl hwords rfl⟩
  | readTableLength =>
    exact (Gathers.slot ctx.findTable).map fun ref _ ⟨w, hw, hwords⟩ =>
      ⟨.readTableLength w, map_eq_ok_iff.mpr ⟨ref, hw, rfl⟩, .plain rfl hwords rfl⟩
  | goto =>
    exact (Gathers.slot ctx.findLabel).map fun ref _ ⟨w, hw, hwords⟩ =>
      ⟨.goto w, map_eq_ok_iff.mpr ⟨ref, hw, rfl⟩, .plain rfl hwords rfl⟩
  | getArgs =>
    refine .slot_bind fun w function hfunction => .enoughSteps_bind fun steps => ?_
    have hbound : ctx.wordBinding.function w = .ok function := hfunction
    refine (Gathers.slotsUntil argsEnd _ steps).bind_last ?_
    rintro args _ ⟨ws, hws, rfl, hclear⟩
    have hargs : ws.mapM ctx.wordBinding.var = .ok args := hws
    exact ⟨.getArgs w ws, by rw [Instruction.change, hbound, ok_bind, hargs]; rfl,
      .plain rfl rfl hclear⟩
  | «if» =>
    refine expression_gathers.bind ?_
    rintro condition ws k' ⟨ns, hns, rfl, hclear⟩
    exact .word_bind fun target => .word_bind fun unknown1 => .word_bind fun unknown2 =>
      .pure ⟨.if ns target unknown1 unknown2, by rw [Instruction.change, hns]; rfl,
        .plain rfl rfl hclear⟩
  | elseIf =>
    refine .word_bind fun skipTarget => .word_bind fun unknown1 => expression_gathers.bind ?_
    rintro condition ws k' ⟨ns, hns, rfl, hclear⟩
    exact .word_bind fun target => .word_bind fun unknown3 => .word_bind fun unknown4 =>
      .pure ⟨.elseIf skipTarget unknown1 ns target unknown3 unknown4, by
        rw [Instruction.change, hns]; rfl, .plain rfl rfl hclear⟩
  | switch =>
    exact var_bind fun w value hvalue => .word_bind fun entry => .word_bind fun exit =>
      .pure ⟨.switch w entry exit, by rw [Instruction.change, hvalue]; rfl, .plain rfl rfl rfl⟩
  | case =>
    exact var_bind fun w value hvalue => .word_bind fun target =>
      .pure ⟨.case w target, by rw [Instruction.change, hvalue]; rfl, .plain rfl rfl rfl⟩
  | case2 =>
    exact var_bind fun w value hvalue => .word_bind fun target =>
      .pure ⟨.case2 w target, by rw [Instruction.change, hvalue]; rfl, .plain rfl rfl rfl⟩
  | doWhile =>
    refine operand_gathers.bind ?_
    rintro condition ws k' ⟨n, hn, rfl, hshape, hclear⟩
    exact .word_bind fun target =>
      .pure ⟨.doWhile n target, by rw [Instruction.change, hn]; rfl, rfl, rfl, hclear,
        fun _ => hshape⟩
  | set =>
    refine var_bind fun w assignee hassignee => operand_gathers.bind_last ?_
    rintro value ws ⟨n, hn, rfl, hshape, hclear⟩
    exact ⟨.set w n, by rw [Instruction.change, hassignee, ok_bind, hn]; rfl, rfl, rfl, hclear,
      fun _ => hshape⟩
  | getIndex =>
    exact table_bind fun w table ht => var_bind fun w' occurrence ho => var_bind fun w'' result hr =>
      .pure ⟨.getIndex w w' w'', by
        rw [Instruction.change, ht, ok_bind, ho, ok_bind, hr]; rfl, .plain rfl rfl rfl⟩
  | unsure3 =>
    refine var_bind fun w first hfirst => .slot_bind fun w' imported himported =>
      var_bind fun w'' second hsecond => ?_
    have hbound : ctx.wordBinding.imported w' = .ok imported := himported
    exact .pure ⟨.unsure3 w w' w'', by
      rw [Instruction.change, hfirst, ok_bind, hbound, ok_bind, hsecond]; rfl, .plain rfl rfl rfl⟩
  | unsure7 =>
    exact var_bind fun wa a ha => var_bind fun wb b hb => var_bind fun wc c hc =>
      var_bind fun wd d hd => .pure ⟨.unsure7 wa wb wc wd, by
        rw [Instruction.change, ha, ok_bind, hb, ok_bind, hc, ok_bind, hd]; rfl, .plain rfl rfl rfl⟩
  | unsure8 =>
    exact var_bind fun wa a ha => var_bind fun wb b hb => var_bind fun wc c hc =>
      .pure ⟨.unsure8 wa wb wc, by
        rw [Instruction.change, ha, ok_bind, hb, ok_bind, hc]; rfl, .plain rfl rfl rfl⟩
  | unsure11 =>
    exact var_bind fun w var hvar => table_bind fun w' table htable =>
      .pure ⟨.unsure11 w w', by
        rw [Instruction.change, hvar, ok_bind, htable]; rfl, .plain rfl rfl rfl⟩
  | unsure0 | unsure5 | unsure6 | unsure10 => exact .throw _

end Instructions

end Decode

/-- The first word announces the instruction: its opcode, and with the flag the constant shape. The
flag stands for nothing in operands that are written alike in both shapes. -/
structure Instruction.AnnouncedBy (n : Instruction .numbered) (first : UInt32) : Prop where
  isOpcode : Opcode.ofCode? (first &&& ~~~constantFlag) = some n.opcode
  flag : isFlagged first → n.opcode.acceptsConstant
  shape : n.opcode.choosesShape → n.isConstant = (isFlagged first || n.fitsBothShapes)

namespace Decode

variable {k : Bool} {ctx : Context}

lemma instruction_gathers :
    Gathers k (instruction ctx) fun i ws => ∃ (n : Instruction .numbered) (first : UInt32),
      n.change ctx.wordBinding = .ok i ∧ n.AnnouncedBy first ∧ first :: n.operandWords = ws ∧
        n.isClear := by
  refine .offset_bind fun offset => .word_bind fun first => ?_
  cases hopcode : Opcode.ofCode? (first &&& ~~~constantFlag) with
  | none => exact .throw _
  | some opcode =>
    dsimp only
    split
    case isTrue => exact .throw _
    case isFalse hflag =>
      refine .setConstant_bind fun r => ?_
      refine (operands_gathers first offset opcode r).mono ?_ fun _ he => he
      rintro i c ⟨ws, ⟨n, hn, rfl, rfl, hclear, hshape⟩, hpasses⟩
      refine ⟨_, ⟨n, first, hn, ⟨hopcode, fun hflagged => ?_, hshape⟩, rfl, hclear⟩, hpasses⟩
      unfold isFlagged at hflagged
      simpa [hflagged] using hflag

end Decode

namespace Read

variable {ctx : Context} {i : Instruction .bound} {r t : Reader}

/-- An instruction that has been read is one in numbers, looked up number by number, and its bytes
are those of the first word and of the words of its operands. None of these could be taken for another
one. -/
theorem exists_of_instruction (h : instruction ctx r = .ok i t) :
    ∃ (n : Instruction .numbered) (first : UInt32), n.change ctx.wordBinding = .ok i ∧ n.isClear ∧
      n.AnnouncedBy first ∧ r.Passes t (bytesOfWords (first :: n.operandWords)) := by
  unfold instruction at h
  cases hrun : Decode.instruction ctx ⟨r, false⟩ with
  | ok j c =>
    rw [hrun] at h
    obtain ⟨rfl, rfl⟩ := EStateM.Result.ok.inj h
    obtain ⟨_, ⟨n, first, hn, hfirst, rfl, hclear⟩, hpasses⟩ :=
      (Decode.instruction_gathers ⟨r.bytes, r.offset⟩).of_ok hrun
    exact ⟨n, first, hn, hclear, hfirst, hpasses⟩
  | error e c =>
    rw [hrun] at h
    cases h

/-- An instruction that has been read has been looked up number by number, and is clear. -/
theorem instruction_answers : Answers (instruction ctx) fun i =>
    ∃ n : Instruction .numbered, n.change ctx.wordBinding = .ok i ∧ n.isClear := by
  intro r
  cases hrun : instruction ctx r with
  | ok i t =>
    obtain ⟨n, -, hn, hclear, -⟩ := exists_of_instruction hrun
    exact ⟨n, hn, hclear⟩
  | error e t => trivial

/-- Reading an instruction moves the reader by the bytes of the instruction. -/
theorem instruction_consumes : Consumes (instruction ctx) fun i n => n = i.size := by
  intro r
  cases hrun : instruction ctx r with
  | ok i t =>
    obtain ⟨n, first, hn, -, -, hpasses⟩ := exists_of_instruction hrun
    have hsize : (bytesOfWords (first :: n.operandWords)).length = i.size := by
      rw [length_bytesOfWords, Instruction.size_change hn, ← n.length_words]
      rfl
    exact ⟨_, hsize, hpasses.eq_skip⟩
  | error e t => trivial

end Read

end ScriptContainer
