import ScriptContainer.Instruction.Decoding
import ScriptContainer.Proofs.Clarity
import ScriptContainer.Proofs.Reads

/-!
# Decoding what is encoded

Clear code is decoded by taking up its words and looking up each of them where a reference stands.
Decoding is thus a change of the references of the code, and fails where the change fails.
-/

namespace ScriptContainer

open Marker

/-- Words as references, each looked up in its own way. -/
def Context.wordBinding (ctx : Context) : Slots.Change .numbered .bound (Except Error) where
  symbol word := ctx.resolve (.id word)
  var word := ctx.findVariable (.id word)
  table word := ctx.findTable (.id word)
  label word := ctx.findLabel (.id word)
  callee word := ctx.findCallee (.id word)
  imported word := ctx.findImport (.id word)
  function word := ctx.findFunction (.id word)
  operator word := Context.orUnknown (Operator.ofCode? word) .symbol (.id word)

/-- References looked up by their numbers. -/
def Context.rebinding (ctx : Context) : Slots.Change .bound .bound (Except Error) where
  symbol symbol := ctx.resolve (.id symbol.id)
  var ref := ctx.findVariable (.id ref.id)
  table ref := ctx.findTable (.id ref.id)
  label ref := ctx.findLabel (.id ref.id)
  callee callee := ctx.findCallee (.id callee.id)
  imported id := ctx.findImport (.id id)
  function id := ctx.findFunction (.id id)
  operator operator := .ok operator

lemma Script.numbering_then (s : Script) (ctx : Context) :
    s.numbering.Then ctx.wordBinding ctx.rebinding where
  symbol h := by rw [Script.check_eq_ok h]; rfl
  var h := by rw [Script.check_eq_ok h]; rfl
  table h := by rw [Script.check_eq_ok h]; rfl
  label h := by rw [Script.check_eq_ok h]; rfl
  callee {callee _} h := by rw [Script.check_eq_ok h]; cases callee <;> rfl
  imported h := by rw [Script.check_eq_ok h]; rfl
  function h := by rw [Script.check_eq_ok h]; rfl
  operator {operator _} h := by
    obtain rfl := Except.ok.inj h
    change Context.orUnknown (Operator.ofCode? operator.code) _ _ = _
    rw [Operator.ofCode?_code]
    rfl

lemma Token.size_pos {S : Slots} (t : Token S) : 0 < t.size := by
  cases t <;> simp [Token.size]

lemma Argument.size_pos {S : Slots} (a : Argument S) : 0 < a.size false := by
  cases a <;> simp [Argument.size]

lemma Token.exists_words_eq (t : Token .numbered) : ∃ first ws, t.words = first :: ws := by
  cases t <;> exact ⟨_, _, rfl⟩

lemma exists_expressionWords_eq (ts : List (Token .numbered)) :
    ∃ first ws, expressionWords ts = first :: ws := by
  cases ts with
  | nil => exact ⟨_, _, rfl⟩
  | cons t ts =>
    obtain ⟨first, ws, hwords⟩ := t.exists_words_eq
    exact ⟨first, ws ++ expressionWords ts, by rw [expressionWords, hwords, List.cons_append]⟩

lemma Argument.exists_words_eq (a : Argument .numbered) :
    ∃ first ws, a.words false = first :: ws := by
  cases a with
  | symbol word => exact ⟨_, _, rfl⟩
  | expr tokens => exact exists_expressionWords_eq tokens

namespace Decode

variable {α β : Type} {k : Bool} {d : Decode α} {ws ws' : List UInt32} {answer : Except Error α}

/-- From the shape `k` on, decoding takes up the words and answers as said, wherever the words are
shown. -/
def Takes (k : Bool) (d : Decode α) (ws : List UInt32) (answer : Except Error α) : Prop :=
  ∀ (r : Reader) (rest : List UInt8), r.Shows (bytesOfWords ws ++ rest) →
    match answer with
    | .ok x => ∃ k', d ⟨r, k⟩ = .ok x ⟨r.skip (bytesOfWords ws).length, k'⟩
    | .error e => ∃ c, d ⟨r, k⟩ = .error e c

namespace Takes

lemma pure (x : α) : Takes k (Pure.pure x) [] (.ok x) := fun _ _ _ => ⟨k, rfl⟩

lemma bind {f : α → Decode β} {g : α → Except Error β} (h : Takes k d ws answer)
    (hf : ∀ x k', answer = .ok x → Takes k' (f x) ws' (g x)) :
    Takes k (d >>= f) (ws ++ ws') (answer >>= g) := by
  intro r rest hshows
  have hwords : bytesOfWords (ws ++ ws') = bytesOfWords ws ++ bytesOfWords ws' :=
    List.flatMap_append
  rw [hwords, List.append_assoc] at hshows
  have hd := h r _ hshows
  cases answer with
  | error e =>
    obtain ⟨c, hd⟩ := hd
    exact ⟨c, bind_of_error hd⟩
  | ok x =>
    obtain ⟨k', hd⟩ := hd
    have hnext := hf x k' rfl (r.skip (bytesOfWords ws).length) rest hshows.skip
    change match g x with
      | .ok y => ∃ k', (d >>= f) ⟨r, k⟩ = .ok y ⟨r.skip (bytesOfWords (ws ++ ws')).length, k'⟩
      | .error e => ∃ c, (d >>= f) ⟨r, k⟩ = .error e c
    rw [bind_of_ok hd, hwords, List.length_append, ← Reader.skip_skip]
    exact hnext

lemma bind_last {f : α → β} (h : Takes k d ws answer) :
    Takes k (d >>= fun x => Pure.pure (f x)) ws (answer >>= fun x => Pure.pure (f x)) := by
  have := h.bind (g := fun x => Pure.pure (f x)) fun x _ _ => pure (f x)
  rwa [List.append_nil] at this

lemma map {f : α → β} (h : Takes k d ws answer) : Takes k (f <$> d) ws (f <$> answer) := by
  intro r rest hshows
  have hd := h r rest hshows
  cases answer with
  | error e =>
    obtain ⟨c, hd⟩ := hd
    exact ⟨c, map_of_error hd⟩
  | ok x =>
    obtain ⟨k', hd⟩ := hd
    exact ⟨k', map_of_ok hd⟩

lemma word_apply {w : UInt32} {r : Reader} {rest : List UInt8}
    (h : r.Shows (bytesOfWord w ++ rest)) : Decode.word ⟨r, k⟩ = .ok w ⟨r.skip 4, k⟩ := by
  unfold Decode.word ofRead
  dsimp only
  rw [Read.word_apply h]

lemma word_bind {w : UInt32} {f : UInt32 → Decode α} (h : Takes k (f w) ws answer) :
    Takes k (Decode.word >>= f) (w :: ws) answer := by
  intro r rest hshows
  have hshows : r.Shows (bytesOfWord w ++ (bytesOfWords ws ++ rest)) := by
    rw [← List.append_assoc]
    exact hshows
  rw [bind_of_ok (word_apply hshows)]
  have hlength : (bytesOfWords (w :: ws)).length = 4 + (bytesOfWords ws).length := by
    rw [length_bytesOfWords, length_bytesOfWords, List.length_cons]
    omega
  rw [hlength, ← Reader.skip_skip]
  exact h (r.skip 4) rest hshows.skip

lemma word (w : UInt32) : Takes k Decode.word [w] (.ok w) := by
  have := word_bind (pure (k := k) w)
  rwa [bind_pure] at this

/-- Decoding that asks for the offset does not depend on the answer. -/
lemma offset_bind {f : Nat → Decode α} (h : ∀ offset, Takes k (f offset) ws answer) :
    Takes k (ofRead Read.offset >>= f) ws answer :=
  fun r rest hshows => h r.offset r rest hshows

lemma except_bind {result : Except Error α} {f : α → Decode β} {g : α → Except Error β}
    (h : ∀ x, result = .ok x → Takes k (f x) ws (g x)) :
    Takes k (ofExcept result >>= f) ws (result >>= g) := by
  cases result with
  | error e => exact fun r rest hshows => ⟨⟨r, k⟩, rfl⟩
  | ok x => exact h x rfl

lemma slot_bind {find : Key → Except Error α} {w : UInt32} {f : α → Decode β}
    {g : α → Except Error β} (h : ∀ x, find (.id w) = .ok x → Takes k (f x) ws (g x)) :
    Takes k (slot find >>= f) (w :: ws) (find (.id w) >>= g) := by
  unfold slot
  rw [bind_assoc]
  exact word_bind (except_bind h)

lemma slot {find : Key → Except Error α} (w : UInt32) :
    Takes k (slot find) [w] (find (.id w)) := by
  have hslot : Takes k (Decode.slot find >>= Pure.pure) [w] (find (.id w) >>= Pure.pure) :=
    slot_bind fun x _ => pure x
  rwa [bind_pure, bind_pure] at hslot

lemma enoughSteps_bind {f : Nat → Decode α}
    (h : ∀ steps, 4 * ws.length < steps → Takes k (f steps) ws answer) :
    Takes k (enoughSteps >>= f) ws answer := by
  intro r rest hshows
  have hlength := hshows.length_eq
  rw [List.length_append, length_bytesOfWords] at hlength
  have hsteps : 4 * ws.length < r.remaining + 1 := by
    unfold Reader.remaining
    omega
  exact h (r.remaining + 1) hsteps r rest hshows

lemma slotsUntil {stop : UInt32} {find : UInt32 → Except Error α} (xs : List UInt32) {steps : Nat}
    (hstop : xs.all (· != stop)) (hsteps : xs.length < steps) :
    Takes k (slotsUntil stop find steps) (xs ++ [stop]) (xs.mapM find) := by
  induction xs generalizing k steps with
  | nil =>
    obtain ⟨n, rfl⟩ : ∃ n, steps = n + 1 := ⟨steps - 1, by omega⟩
    rw [Decode.slotsUntil]
    refine word_bind ?_
    rw [if_pos rfl]
    exact pure _
  | cons x xs ih =>
    obtain ⟨n, rfl⟩ : ∃ n, steps = n + 1 := ⟨steps - 1, by omega⟩
    rw [List.all_cons, Bool.and_eq_true, bne_iff_ne] at hstop
    rw [List.length_cons] at hsteps
    rw [Decode.slotsUntil, List.mapM_cons]
    refine word_bind ?_
    rw [if_neg hstop.1]
    exact except_bind fun y _ => (ih hstop.2 (by omega)).bind_last

end Takes

section Expressions

variable {ctx : Context}

lemma first_ne_exprEnd {t : Token .numbered} (h : t.isClear) {first : UInt32} {ws : List UInt32}
    (hwords : t.words = first :: ws) : first ≠ exprEnd := by
  cases t with
  | symbol word =>
    obtain ⟨rfl, rfl⟩ := List.cons.inj hwords
    simp only [Token.isClear, Bool.and_eq_true, bne_iff_ne] at h
    exact h.1.1
  | operator word =>
    obtain ⟨rfl, rfl⟩ := List.cons.inj hwords
    rintro rfl
    exact absurd h (by decide)
  | call call =>
    obtain ⟨rfl, rfl⟩ := List.cons.inj hwords
    exact fun h => absurd h (by decide)

mutual

lemma token_takes : ∀ (t : Token .numbered) {k : Bool} {steps : Nat} {first : UInt32}
    {ws : List UInt32}, t.isClear → t.size ≤ steps → t.words = first :: ws →
    Takes k (token ctx steps first) ws (t.change ctx.wordBinding)
  | .symbol word, k, steps, first, ws, hclear, hsteps, hwords => by
    obtain ⟨n, rfl⟩ : ∃ n, steps = n + 1 := ⟨steps - 1, by simp only [Token.size] at hsteps; omega⟩
    obtain ⟨rfl, rfl⟩ := List.cons.inj hwords
    simp only [Token.isClear, Bool.and_eq_true, bne_iff_ne, Option.isNone_iff_eq_none] at hclear
    rw [token, if_neg hclear.1.2, hclear.2]
    exact Takes.except_bind fun symbol _ => .pure _
  | .operator word, k, steps, first, ws, hclear, hsteps, hwords => by
    obtain ⟨n, rfl⟩ : ∃ n, steps = n + 1 := ⟨steps - 1, by simp only [Token.size] at hsteps; omega⟩
    obtain ⟨rfl, rfl⟩ := List.cons.inj hwords
    obtain ⟨operator, hoperator⟩ := Option.isSome_iff_exists.mp hclear
    have hstart : word ≠ callStart := by
      rintro rfl
      exact absurd hclear (by decide)
    have hbinding : ctx.wordBinding.operator word = .ok operator := by
      change Context.orUnknown (Operator.ofCode? word) _ _ = _
      rw [hoperator]
      rfl
    rw [token, if_neg hstart, hoperator, Token.change, hbinding]
    exact .pure _
  | .call call, k, steps, first, ws, hclear, hsteps, hwords => by
    obtain ⟨n, rfl⟩ : ∃ n, steps = n + 1 := ⟨steps - 1, by simp only [Token.size] at hsteps; omega⟩
    obtain ⟨rfl, rfl⟩ := List.cons.inj hwords
    rw [Token.size] at hsteps
    rw [token, if_pos rfl]
    have hcall : Takes false (callFrom ctx n false) (call.words false) (call.change ctx.wordBinding) :=
      callFrom_takes call hclear (by omega)
    exact fun r rest hshows => hcall.map r rest hshows

lemma callFrom_takes : ∀ (c : Call .numbered) {k : Bool} {steps : Nat}, c.isClear →
    c.size false ≤ steps + 3 →
      Takes k (callFrom ctx steps false) (c.words false) (c.change ctx.wordBinding)
  | ⟨callee, args⟩, k, steps, hclear, hsteps => by
    rw [Call.size] at hsteps
    obtain ⟨n, rfl⟩ : ∃ n, steps = n + 1 := ⟨steps - 1, by omega⟩
    rw [callFrom, Call.words, Call.change]
    refine Takes.slot_bind fun found _ => ?_
    exact (argumentsFrom_takes args hclear (by omega)).bind_last

lemma argument_takes : ∀ (a : Argument .numbered) {k : Bool} {steps : Nat} {first : UInt32}
    {ws : List UInt32}, a.isClear → a.size false ≤ steps → a.words false = first :: ws →
    first ≠ callEnd ∧ Takes k (argument ctx steps false first) ws (a.change ctx.wordBinding)
  | .expr tokens, k, steps, first, ws, hclear, hsteps, hwords => by
    rw [Argument.size] at hsteps
    obtain ⟨n, rfl⟩ : ∃ n, steps = n + 1 := ⟨steps - 1, by omega⟩
    rw [Argument.words] at hwords
    rw [Argument.isClear, Bool.and_eq_true, bne_iff_ne, hwords, List.head?_cons] at hclear
    refine ⟨fun h => hclear.1 (congrArg some h), ?_⟩
    rw [argument, if_neg (by decide), Argument.change]
    exact (tokensFrom_takes tokens hclear.2 (by omega) hwords).map

lemma argumentsFrom_takes : ∀ (as : List (Argument .numbered)) {k : Bool} {steps : Nat},
    clearArguments as → argumentsSize false as < steps →
    Takes k (argumentsFrom ctx steps false) (argumentWords false as) (changeArguments ctx.wordBinding as)
  | [], k, steps, _, hsteps => by
    obtain ⟨n, rfl⟩ : ∃ n, steps = n + 1 := ⟨steps - 1, by omega⟩
    rw [argumentsFrom, argumentWords]
    refine Takes.word_bind ?_
    rw [if_pos rfl]
    exact .pure _
  | a :: as, k, steps, hclear, hsteps => by
    obtain ⟨n, rfl⟩ : ∃ n, steps = n + 1 := ⟨steps - 1, by omega⟩
    rw [clearArguments, Bool.and_eq_true] at hclear
    rw [argumentsSize] at hsteps
    have hpos := a.size_pos
    obtain ⟨first, ws, hwords⟩ := a.exists_words_eq
    have hsize : a.size false ≤ n := by omega
    obtain ⟨hfirst, harg⟩ := argument_takes a hclear.1 hsize hwords
    rw [argumentsFrom, argumentWords, changeArguments, hwords]
    refine Takes.word_bind ?_
    rw [if_neg hfirst]
    exact harg.bind fun arg k' _ => (argumentsFrom_takes as hclear.2 (by omega)).bind_last

lemma tokensFrom_takes : ∀ (ts : List (Token .numbered)) {k : Bool} {steps : Nat} {first : UInt32}
    {ws : List UInt32}, clearTokens ts → tokensSize ts < steps → expressionWords ts = first :: ws →
    Takes k (tokensFrom ctx steps first) ws (changeTokens ctx.wordBinding ts)
  | [], k, steps, first, ws, _, hsteps, hwords => by
    obtain ⟨n, rfl⟩ : ∃ n, steps = n + 1 := ⟨steps - 1, by omega⟩
    obtain ⟨rfl, rfl⟩ := List.cons.inj hwords
    rw [tokensFrom, if_pos rfl]
    exact .pure _
  | t :: ts, k, steps, first, ws, hclear, hsteps, hwords => by
    obtain ⟨n, rfl⟩ : ∃ n, steps = n + 1 := ⟨steps - 1, by omega⟩
    rw [clearTokens, Bool.and_eq_true] at hclear
    rw [tokensSize] at hsteps
    have hpos := t.size_pos
    obtain ⟨head, tail, htoken⟩ := t.exists_words_eq
    obtain ⟨next, more, hmore⟩ := exists_expressionWords_eq ts
    rw [expressionWords, htoken] at hwords
    obtain ⟨rfl, rfl⟩ := List.cons.inj hwords
    rw [tokensFrom, if_neg (first_ne_exprEnd hclear.1 htoken), changeTokens, hmore]
    refine (token_takes t hclear.1 (by omega) htoken).bind fun token k' _ => ?_
    exact Takes.word_bind (tokensFrom_takes ts hclear.2 (by omega) hmore).bind_last

end

end Expressions

section Operands

variable {ctx : Context}

lemma expression_takes {ts : List (Token .numbered)} (h : clearTokens ts) :
    Takes k (expression ctx) (expressionWords ts) (changeTokens ctx.wordBinding ts) := by
  refine Takes.enoughSteps_bind fun steps hsteps => ?_
  rw [length_expressionWords] at hsteps
  obtain ⟨first, ws, hwords⟩ := exists_expressionWords_eq ts
  rw [hwords]
  exact Takes.word_bind (tokensFrom_takes ts h (by omega) hwords)

lemma constantArguments_takes (as : List (Argument .numbered)) {steps : Nat}
    (h : as.all Argument.isClearSymbol) (hsteps : as.length + 1 < steps) :
    Takes k (argumentsFrom ctx steps true) (argumentWords true as)
      (changeArguments ctx.wordBinding as) := by
  induction as generalizing k steps with
  | nil =>
    obtain ⟨n, rfl⟩ : ∃ n, steps = n + 1 := ⟨steps - 1, by omega⟩
    rw [argumentsFrom, argumentWords]
    refine Takes.word_bind ?_
    rw [if_pos rfl]
    exact .pure _
  | cons a as ih =>
    obtain ⟨n, rfl⟩ : ∃ n, steps = n + 2 := ⟨steps - 2, by omega⟩
    rw [List.all_cons, Bool.and_eq_true] at h
    rw [List.length_cons] at hsteps
    cases a with
    | expr tokens => exact absurd h.1 Bool.false_ne_true
    | symbol word =>
      have hword : word ≠ callEnd := bne_iff_ne.mp h.1
      have hargument : Takes k (argument ctx (n + 1) true word) []
          ((Argument.symbol word).change ctx.wordBinding) := by
        rw [argument, if_pos rfl, Argument.change]
        exact Takes.except_bind fun symbol _ => .pure _
      rw [argumentsFrom, argumentWords, changeArguments]
      refine Takes.word_bind ?_
      rw [if_neg hword]
      exact hargument.bind fun arg k' _ => (ih h.2 (by omega)).bind_last

lemma argumentsSize_of_clearSymbols {as : List (Argument .numbered)}
    (h : as.all Argument.isClearSymbol) :
    as.all Argument.isSymbol ∧ argumentsSize true as = 4 * as.length := by
  induction as with
  | nil => exact ⟨rfl, rfl⟩
  | cons a as ih =>
    rw [List.all_cons, Bool.and_eq_true] at h
    obtain ⟨hsymbols, hsize⟩ := ih h.2
    cases a with
    | expr tokens => exact absurd h.1 Bool.false_ne_true
    | symbol word =>
      rw [List.all_cons, hsymbols, argumentsSize, Argument.size, if_pos rfl, hsize, List.length_cons]
      exact ⟨rfl, by omega⟩

lemma call_takes {c : Call .numbered} (h : c.isClearOperand) :
    Takes k (call ctx c.isConstant) (c.words c.isConstant) (c.change ctx.wordBinding) := by
  obtain ⟨callee, args⟩ := c
  refine Takes.enoughSteps_bind fun steps hsteps => ?_
  rw [Call.length_words, Call.size] at hsteps
  by_cases hall : args.all Argument.isClearSymbol
  · obtain ⟨hsymbols, hsize⟩ := argumentsSize_of_clearSymbols hall
    have hconstant : Call.isConstant ⟨callee, args⟩ = true := hsymbols
    obtain ⟨n, rfl⟩ : ∃ n, steps = n + 1 := ⟨steps - 1, by omega⟩
    rw [hconstant, hsize] at hsteps
    rw [hconstant, callFrom, Call.words, Call.change]
    refine Takes.slot_bind fun found _ => ?_
    exact (constantArguments_takes args hall (by omega)).bind_last
  · have hclear : clearArguments args := by
      rw [Call.isClearOperand, Bool.or_eq_true] at h
      exact h.resolve_left hall
    have hconstant : Call.isConstant ⟨callee, args⟩ = false := by
      cases args with
      | nil => exact absurd rfl hall
      | cons a as =>
        rw [clearArguments, Bool.and_eq_true] at hclear
        cases a with
        | symbol word => exact absurd hclear.1 Bool.false_ne_true
        | expr tokens => rfl
    rw [hconstant] at hsteps
    rw [hconstant]
    refine callFrom_takes ⟨callee, args⟩ hclear ?_
    rw [Call.size]
    omega

lemma callOperand_takes {c : Call .numbered} (h : c.isClearOperand) :
    Takes c.isConstant (callOperand ctx) (c.words c.isConstant) (c.change ctx.wordBinding) :=
  fun r rest hshows => call_takes h r rest hshows

/-- An operand in the constant shape. -/
def constantOperand (ctx : Context) : Decode (Operand .bound) := do
  let w ← word
  if w = exprEnd then return .expr []
  else
    let ref ← ofExcept (ctx.findVariable (.id w))
    return .var ref

lemma operand_takes {v : Operand .numbered} (h : v.isClear) :
    Takes v.isConstant (operand ctx) v.words (v.change ctx.wordBinding) := by
  cases v with
  | var word =>
    have hvar : Takes true (constantOperand ctx) [word] (Operand.var <$> ctx.wordBinding.var word) := by
      refine Takes.word_bind ?_
      rw [if_neg (bne_iff_ne.mp h)]
      exact Takes.except_bind fun ref _ => .pure _
    exact fun r rest hshows => hvar r rest hshows
  | expr tokens =>
    cases tokens with
    | nil =>
      have hempty : Takes true (constantOperand ctx) [exprEnd] (.ok (Operand.expr [])) := by
        refine Takes.word_bind ?_
        rw [if_pos rfl]
        exact .pure _
      exact fun r rest hshows => hempty r rest hshows
    | cons t ts =>
      have hexpr : Takes false (do
          let tokens ← expression ctx
          return .expr tokens) (expressionWords (t :: ts))
          (Operand.expr <$> changeTokens ctx.wordBinding (t :: ts)) := by
        rw [map_eq_pure_bind]
        exact (expression_takes h).bind_last
      exact fun r rest hshows => hexpr r rest hshows

lemma spawn_takes {spawn : Spawn .numbered} (h : spawn.isClear) :
    Takes k (Decode.spawn ctx) spawn.words (spawn.change ctx.wordBinding) := by
  obtain ⟨callee, take, give⟩ := spawn
  rw [Spawn.isClear, Bool.and_eq_true] at h
  have hwords : Spawn.words ⟨callee, take, give⟩ =
      callee :: ((take ++ [argsEnd]) ++ (give ++ [callEnd])) := by simp [Spawn.words]
  rw [hwords, Decode.spawn, Spawn.change]
  refine Takes.slot_bind fun found _ => Takes.enoughSteps_bind fun steps hsteps => ?_
  simp only [List.length_append, List.length_cons] at hsteps
  have htaken : Takes k (slotsUntil argsEnd (fun w => .ok w) steps) (take ++ [argsEnd])
      (take.mapM fun w => (.ok w : Except Error UInt32)) :=
    Takes.slotsUntil take h.1 (by omega)
  rw [mapM_ok] at htaken
  let answer (taken : List UInt32) : Except Error (Spawn .bound) := do
    let given ← give.mapM ctx.wordBinding.var
    return ⟨found, taken, given⟩
  refine htaken.bind (g := answer) fun taken k' _ => ?_
  exact (Takes.slotsUntil give h.2 (by omega)).bind_last

lemma operands_takes (i : Instruction .numbered) (h : i.isClear) (first : UInt32) (offset : Nat) :
    Takes i.isConstant (operands ctx first offset i.opcode) i.operandWords
      (i.change ctx.wordBinding) := by
  cases i with
  | nop | label | «return» | endIf | breakSwitch | endSwitch | «break» | endDoWhile | unsure1 =>
    exact .pure _
  | returnVal value | deleteRuntime value | wait value | waitMs value | waitCompleted value =>
    exact (operand_takes h).map
  | getArgs function args =>
    refine Takes.slot_bind fun found _ => Takes.enoughSteps_bind fun steps hsteps => ?_
    rw [List.length_append] at hsteps
    exact (Takes.slotsUntil args h (by omega)).bind_last
  | thread spawn | thread2 spawn => exact (spawn_takes h).map
  | goto label => exact (Takes.slot label).map
  | call c | callAsThread c | callAsChildThread c => exact (callOperand_takes h).map
  | «if» condition target unknown1 unknown2 =>
    refine (expression_takes h).bind fun condition k' _ => ?_
    exact Takes.word_bind (Takes.word_bind (Takes.word_bind (.pure _)))
  | «else» target => exact (Takes.word target).map
  | elseIf skipTarget unknown1 condition target unknown3 unknown4 =>
    refine Takes.word_bind (Takes.word_bind ?_)
    refine (expression_takes h).bind fun condition k' _ => ?_
    exact Takes.word_bind (Takes.word_bind (Takes.word_bind (.pure _)))
  | switch value entry exit =>
    exact Takes.slot_bind fun found _ => Takes.word_bind (Takes.word_bind (.pure _))
  | case value target | case2 value target =>
    exact Takes.slot_bind fun found _ => Takes.word_bind (.pure _)
  | doWhile condition target =>
    exact (operand_takes h).bind fun condition k' _ => Takes.word_bind (.pure _)
  | set assignee value =>
    exact Takes.slot_bind fun found _ => (operand_takes h).bind_last
  | readTableLength table => exact (Takes.slot table).map
  | getIndex table occurrence result =>
    exact Takes.slot_bind fun a _ => Takes.slot_bind fun b _ => Takes.slot_bind fun c _ => .pure _
  | unsure2 expr | unsure9 expr => exact (expression_takes h).map
  | unsure3 first imported second =>
    exact Takes.slot_bind fun a _ => Takes.slot_bind fun b _ => Takes.slot_bind fun c _ => .pure _
  | unsure4 var => exact (Takes.slot var).map
  | unsure7 a b c d =>
    exact Takes.slot_bind fun _ _ => Takes.slot_bind fun _ _ => Takes.slot_bind fun _ _ =>
      Takes.slot_bind fun _ _ => .pure _
  | unsure8 a b c =>
    exact Takes.slot_bind fun a _ => Takes.slot_bind fun b _ => Takes.slot_bind fun c _ => .pure _
  | unsure11 var table =>
    exact Takes.slot_bind fun a _ => Takes.slot_bind fun b _ => .pure _

lemma flagged_code (opcode : Opcode) (constant : Bool) :
    let word := opcode.code ||| (if constant then constantFlag else 0)
    (word &&& constantFlag != 0) = constant ∧ word &&& ~~~constantFlag = opcode.code := by
  cases opcode <;> cases constant <;> decide

lemma acceptsConstant_of_isConstant {S : Slots} {i : Instruction S} (h : i.isConstant) :
    i.opcode.acceptsConstant := by
  cases i <;> first | rfl | cases h

/-- Decoding the words of a clear instruction changes its references. -/
theorem instruction_takes (i : Instruction .numbered) (h : i.isClear) :
    Takes k (Decode.instruction ctx) i.words (i.change ctx.wordBinding) := by
  obtain ⟨hconstant, hcode⟩ := flagged_code i.opcode i.isConstant
  have haccepts : (i.isConstant && !i.opcode.acceptsConstant) = false := by
    cases hc : i.isConstant with
    | false => rfl
    | true => rw [acceptsConstant_of_isConstant hc]; rfl
  refine Takes.offset_bind fun offset => Takes.word_bind ?_
  dsimp only
  rw [Instruction.opcodeWord, hcode, hconstant, Opcode.ofCode?_code]
  dsimp only
  rw [haccepts, if_neg Bool.false_ne_true]
  exact fun r rest hshows => operands_takes i h _ _ r rest hshows

end Operands

end Decode

end ScriptContainer
