import ScriptContainer.Proofs.CoveredRegion
import ScriptContainer.Proofs.ComposedReads

/-!
# Failures in reading code

Where an instruction, the code of a function or the payload of a table cannot be read, the container
is to blame, unless a function is read that has been read before.
-/

namespace ScriptContainer

variable {α : Type}

/-- The program is not at fault where there is no result. -/
def Excused (x : Except Error α) : Prop := ∀ e, x = .error e → ¬ e.IsFault

lemma Context.orUnknown_excused {found : Option α} {kind : Sought} {key : Key} :
    Excused (orUnknown found kind key) := by
  rintro e h hfault
  unfold orUnknown at h
  cases found with
  | some x => cases h
  | none =>
    obtain rfl := Except.error.inj h
    exact hfault

lemma Script.requireFunction_excused (s : Script) (id : RecordId) : Excused (s.requireFunction id) := by
  rintro e h hfault
  unfold requireFunction at h
  cases hf : s.functions.get? id with
  | some f =>
    rw [hf] at h
    cases h
  | none =>
    rw [hf] at h
    obtain rfl := Except.error.inj h
    exact hfault

namespace Decode

variable {ctx : Context}

lemma ofExcept_faultless {x : Except Error α} (h : Excused x) : Faultless (ofExcept x) := by
  cases x with
  | ok a => exact .pure a
  | error e => exact .throw (h e rfl)

lemma ofRead_faultless {read : Read α} (h : Composed read) : Faultless (ofRead read) := by
  intro c
  have hread := h.faultless c.reader
  unfold ofRead
  cases hrun : read c.reader with
  | ok a r => trivial
  | error e r => exact hread.of_error hrun

lemma word_faultless : Faultless word := ofRead_faultless .word

lemma slot_faultless (find : Key → Except Error α) (h : ∀ key, Excused (find key)) :
    Faultless (slot find) :=
  .bind word_faultless fun _ => ofExcept_faultless (h _)

lemma var_faultless : Faultless (var ctx) :=
  slot_faultless ctx.findVariable fun _ => Context.orUnknown_excused

lemma endOfData_faultless : Faultless (endOfData : Decode α) := fun _ => id

lemma enoughSteps_faultless : Faultless enoughSteps := fun _ => trivial

lemma isConstant_faultless : Faultless isConstant := fun _ => trivial

lemma setConstant_faultless (constant : Bool) : Faultless (setConstant constant) := fun _ => trivial

lemma slotsUntil_faultless (stop : UInt32) (find : UInt32 → Except Error α)
    (h : ∀ w, Excused (find w)) (steps : Nat) : Faultless (slotsUntil stop find steps) := by
  induction steps with
  | zero => exact endOfData_faultless
  | succ steps ih =>
    refine .bind word_faultless fun w => ?_
    split
    · exact .pure []
    · exact (ofExcept_faultless (h w)).bind fun _ => ih.bind fun _ => .pure _

mutual

lemma tokensFrom_faultless (ctx : Context) (steps : Nat) (first : UInt32) :
    Faultless (tokensFrom ctx steps first) := by
  match steps with
  | 0 => exact endOfData_faultless
  | steps + 1 =>
    rw [tokensFrom]
    split
    · exact .pure []
    · exact (token_faultless ctx steps first).bind fun _ => .bind word_faultless fun next =>
        (tokensFrom_faultless ctx steps next).bind fun _ => .pure _
termination_by structural steps

lemma token_faultless (ctx : Context) (steps : Nat) (first : UInt32) :
    Faultless (token ctx steps first) := by
  match steps with
  | 0 => exact endOfData_faultless
  | steps + 1 =>
    rw [token]
    split
    · exact (setConstant_faultless _).bind fun _ =>
        (callFrom_faultless ctx steps false).bind fun _ => .pure _
    · cases Operator.ofCode? first with
      | some operator => exact .pure _
      | none =>
        exact (ofExcept_faultless Context.orUnknown_excused).bind fun _ => .pure _
termination_by structural steps

lemma callFrom_faultless (ctx : Context) (steps : Nat) (constant : Bool) :
    Faultless (callFrom ctx steps constant) := by
  match steps with
  | 0 => exact endOfData_faultless
  | steps + 1 =>
    rw [callFrom]
    exact (slot_faultless ctx.findCallee fun _ => Context.orUnknown_excused).bind fun _ =>
      (argumentsFrom_faultless ctx steps constant).bind fun _ => .pure _
termination_by structural steps

lemma argumentsFrom_faultless (ctx : Context) (steps : Nat) (constant : Bool) :
    Faultless (argumentsFrom ctx steps constant) := by
  match steps with
  | 0 => exact endOfData_faultless
  | steps + 1 =>
    rw [argumentsFrom]
    refine .bind word_faultless fun first => ?_
    split
    · exact .pure []
    · exact (argument_faultless ctx steps constant first).bind fun _ =>
        (argumentsFrom_faultless ctx steps constant).bind fun _ => .pure _
termination_by structural steps

lemma argument_faultless (ctx : Context) (steps : Nat) (constant : Bool) (first : UInt32) :
    Faultless (argument ctx steps constant first) := by
  match steps with
  | 0 => exact endOfData_faultless
  | steps + 1 =>
    rw [argument]
    cases constant with
    | true => exact (ofExcept_faultless Context.orUnknown_excused).bind fun _ => .pure _
    | false => exact (tokensFrom_faultless ctx steps first).bind fun _ => .pure _
termination_by structural steps

end

lemma expression_faultless : Faultless (expression ctx) :=
  .bind enoughSteps_faultless fun _ => .bind word_faultless fun _ => tokensFrom_faultless _ _ _

lemma operand_faultless : Faultless (operand ctx) := by
  refine .bind isConstant_faultless fun constant => ?_
  split
  · refine .bind word_faultless fun w => ?_
    split
    · exact .pure _
    · exact (ofExcept_faultless Context.orUnknown_excused).bind fun _ => .pure _
  · exact .bind expression_faultless fun _ => .pure _

lemma spawn_faultless : Faultless (spawn ctx) :=
  (slot_faultless ctx.findCallee fun _ => Context.orUnknown_excused).bind fun _ =>
    .bind enoughSteps_faultless fun _ =>
    (slotsUntil_faultless _ (.ok ·) (fun _ _ h => nomatch h) _).bind fun _ =>
    (slotsUntil_faultless _ (ctx.findVariable <| .id ·) (fun _ => Context.orUnknown_excused)
      _).bind fun _ => .pure _

lemma callOperand_faultless : Faultless (callOperand ctx) :=
  .bind isConstant_faultless fun _ => .bind enoughSteps_faultless fun _ => callFrom_faultless _ _ _

lemma operands_faultless (first : UInt32) (offset : Nat) (opcode : Opcode) :
    Faultless (operands ctx first offset opcode) := by
  cases opcode with
  | nop | label | «return» | endIf | breakSwitch | endSwitch | «break» | endDoWhile | unsure1 =>
    exact .pure _
  | returnVal | deleteRuntime | wait | waitMs | waitCompleted => exact .map operand_faultless
  | thread | thread2 => exact .map spawn_faultless
  | call | callAsThread | callAsChildThread => exact .map callOperand_faultless
  | unsure2 | unsure9 => exact .map expression_faultless
  | «else» => exact .map word_faultless
  | goto => exact (slot_faultless ctx.findLabel fun _ => Context.orUnknown_excused).map
  | readTableLength => exact (slot_faultless ctx.findTable fun _ => Context.orUnknown_excused).map
  | unsure4 => exact .map var_faultless
  | getArgs =>
    exact (slot_faultless ctx.findFunction fun _ => Context.orUnknown_excused).bind fun _ =>
      .bind enoughSteps_faultless fun _ =>
      (slotsUntil_faultless _ (ctx.findVariable <| .id ·) (fun _ => Context.orUnknown_excused)
        _).bind fun _ => .pure _
  | «if» =>
    exact .bind expression_faultless fun _ => .bind word_faultless fun _ =>
      .bind word_faultless fun _ => .bind word_faultless fun _ => .pure _
  | elseIf =>
    exact .bind word_faultless fun _ => .bind word_faultless fun _ =>
      .bind expression_faultless fun _ => .bind word_faultless fun _ =>
      .bind word_faultless fun _ => .bind word_faultless fun _ => .pure _
  | switch =>
    exact .bind var_faultless fun _ => .bind word_faultless fun _ =>
      .bind word_faultless fun _ => .pure _
  | case | case2 => exact .bind var_faultless fun _ => .bind word_faultless fun _ => .pure _
  | doWhile => exact .bind operand_faultless fun _ => .bind word_faultless fun _ => .pure _
  | set => exact .bind var_faultless fun _ => .bind operand_faultless fun _ => .pure _
  | getIndex =>
    exact (slot_faultless ctx.findTable fun _ => Context.orUnknown_excused).bind fun _ =>
      .bind var_faultless fun _ => .bind var_faultless fun _ => .pure _
  | unsure3 =>
    exact .bind var_faultless fun _ =>
      (slot_faultless ctx.findImport fun _ => Context.orUnknown_excused).bind fun _ =>
      .bind var_faultless fun _ => .pure _
  | unsure7 =>
    exact .bind var_faultless fun _ => .bind var_faultless fun _ => .bind var_faultless fun _ =>
      .bind var_faultless fun _ => .pure _
  | unsure8 =>
    exact .bind var_faultless fun _ => .bind var_faultless fun _ =>
      .bind var_faultless fun _ => .pure _
  | unsure11 =>
    exact .bind var_faultless fun _ =>
      (slot_faultless ctx.findTable fun _ => Context.orUnknown_excused).bind fun _ => .pure _
  | unsure0 | unsure5 | unsure6 | unsure10 => exact .throw id

end Decode

/-- The container is to blame where an instruction cannot be read. -/
theorem Read.instruction_faultless (ctx : Context) : Faultless (instruction ctx) := by
  have hdecode : Faultless (Decode.instruction ctx) := by
    refine (Decode.ofRead_faultless .offset).bind fun offset => ?_
    refine Decode.word_faultless.bind fun first => ?_
    dsimp only
    split
    · exact .throw id
    · split
      · exact .throw id
      · exact (Decode.setConstant_faultless _).bind fun _ => Decode.operands_faultless _ _ _
  intro r
  have hrun := hdecode ⟨r, false⟩
  unfold instruction
  cases hread : Decode.instruction ctx ⟨r, false⟩ with
  | ok i c => trivial
  | error e c => exact hrun.of_error hread

namespace Walking

/-- The run moves on in the container, which is to blame where the run fails. -/
def Proceeds (run : Walking α) (walk : Walk) : Prop :=
  Outcome (run walk) (fun _ next => ∃ count, next.reader = walk.reader.skip count)
    fun e => ¬ e.IsFault

namespace Proceeds

variable {β : Type} {run : Walking α} {walk : Walk}

lemma pure (a : α) : Proceeds (Pure.pure a) walk := ⟨0, rfl⟩

lemma throw {e : Error} (h : ¬ e.IsFault) : Proceeds (throw e : Walking α) walk := h

lemma malformed (offset : Nat) (cause : Malformation) :
    Proceeds (Walking.malformed offset cause : Walking α) walk := throw id

lemma bind {next : α → Walking β} (h : Proceeds run walk)
    (hnext : ∀ a walk', run walk = .ok a walk' → Proceeds (next a) walk') :
    Proceeds (run >>= next) walk := by
  cases hrun : run walk with
  | error e t =>
    unfold Proceeds
    rw [bind_of_error hrun]
    exact h.of_error hrun
  | ok a middle =>
    obtain ⟨count, hcount⟩ := h.of_ok hrun
    unfold Proceeds
    rw [bind_of_ok hrun]
    refine (hnext a middle hrun).mono (fun _ last hlast => ?_) fun _ he => he
    obtain ⟨more, hmore⟩ := hlast
    exact ⟨count + more, by rw [hmore, hcount, Reader.skip_skip]⟩

lemma andThen {next : α → Walking β} {bad : Error → Prop} (h : Proceeds run walk)
    (hnext : ∀ a walk', run walk = .ok a walk' →
      Outcome (next a walk') (fun _ _ => True) fun e => e.IsFault → bad e) :
    Outcome ((run >>= next) walk) (fun _ _ => True) fun e => e.IsFault → bad e := by
  cases hrun : run walk with
  | error e t =>
    rw [bind_of_error hrun]
    exact fun hfault => absurd hfault (h.of_error hrun)
  | ok a middle =>
    rw [bind_of_ok hrun]
    exact hnext a middle hrun

lemma ofRead {read : Read α} {takes : α → Nat → Prop} (h : Consumes read takes)
    (hread : Faultless read) : Proceeds (ofRead read) walk := by
  have hblame := hread walk.reader
  unfold Proceeds Walking.ofRead
  cases hrun : read walk.reader with
  | ok a r =>
    obtain ⟨count, -, rfl⟩ := h.of_ok hrun
    exact ⟨count, rfl⟩
  | error e r => exact hblame.of_error hrun

lemma ofExcept {x : Except Error α} (h : Excused x) : Proceeds (ofExcept x) walk := by
  cases x with
  | ok a => exact pure a
  | error e => exact throw (h e rfl)

lemma offset : Proceeds Walking.offset walk := ⟨0, rfl⟩

lemma isSeen (part : Part) : Proceeds (isSeen part) walk := ⟨0, rfl⟩

lemma note (change : Findings → Findings) : Proceeds (note change) walk := ⟨0, rfl⟩

lemma visit {part : Part} (h : part ∉ walk.seen.parts) : Proceeds (visit part) walk := by
  unfold Proceeds
  rw [visit_apply h]
  exact ⟨0, rfl⟩

end Proceeds

mutual

lemma body_proceeds (ctx : Context) (stop steps : Nat) (walk : Walk) :
    Proceeds (body ctx stop steps) walk := by
  match steps with
  | 0 => exact Proceeds.offset.bind fun _ _ _ => .malformed _ _
  | steps + 1 =>
    rw [body]
    refine Proceeds.offset.bind fun here _ _ => ?_
    split
    · refine (Proceeds.ofRead Read.instruction_consumes (Read.instruction_faultless ctx)).bind
        fun i walk _ => ?_
      have hrest (walk : Walk) : Proceeds (do return i :: (← body ctx stop steps)) walk :=
        (body_proceeds ctx stop steps walk).bind fun _ _ _ => .pure _
      cases i.spawned? with
      | none => exact hrest walk
      | some id => exact (spawned_proceeds ctx id steps walk).bind fun _ walk _ => hrest walk
    · split
      · exact .pure []
      · exact .malformed _ _
termination_by structural steps

lemma spawned_proceeds (ctx : Context) (id : RecordId) (steps : Nat) (walk : Walk) :
    Proceeds (spawned ctx id steps) walk := by
  match steps with
  | 0 => exact Proceeds.offset.bind fun _ _ _ => .malformed _ _
  | steps + 1 =>
    rw [spawned]
    refine (Proceeds.isSeen _).bind fun seen walk' hseen => ?_
    rw [isSeen_apply] at hseen
    obtain ⟨rfl, rfl⟩ := EStateM.Result.ok.inj hseen
    split
    case isTrue => exact .pure ()
    case isFalse hnew =>
      refine (Proceeds.ofExcept (ctx.script.requireFunction_excused id)).bind fun f walk' hf => ?_
      obtain ⟨hfound, rfl⟩ := (ofExcept_outcome _).of_ok hf
      have hid : f.id = id := Registry.id_of_get? (Script.get?_of_requireFunction hfound)
      refine Proceeds.offset.bind fun here walk' hhere => ?_
      obtain ⟨-, rfl⟩ := EStateM.Result.ok.inj hhere
      dsimp only
      split
      · exact .malformed _ _
      · refine (Proceeds.note _).bind fun _ noted hnoted => ?_
        obtain ⟨-, rfl⟩ := EStateM.Result.ok.inj hnoted
        refine function_proceeds ctx f steps ?_
        rw [hid]
        exact fun hmem => hnew (decide_eq_true hmem)
termination_by structural steps

lemma function_proceeds (ctx : Context) (f : Function) (steps : Nat) {walk : Walk}
    (h : .function f.id ∉ walk.seen.parts) : Proceeds (function ctx f steps) walk := by
  match steps with
  | 0 => exact Proceeds.offset.bind fun _ _ _ => .malformed _ _
  | steps + 1 =>
    rw [function]
    refine (Proceeds.visit h).bind fun _ walk' _ => Proceeds.offset.bind fun here walk' _ => ?_
    dsimp only
    split
    · exact .malformed _ _
    · exact (body_proceeds _ _ steps _).bind fun _ _ _ => .note _
termination_by structural steps

end

end Walking

end ScriptContainer
