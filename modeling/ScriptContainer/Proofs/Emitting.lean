import ScriptContainer.Region.Emission
import ScriptContainer.Proofs.EncodedSize
import ScriptContainer.Proofs.Standing

/-!
# Writing functions

Writing a function in place writes the words of its instructions and those of the functions inside,
each where it was laid out. It fails only for a reference to a record that the script does not hold.
-/

namespace ScriptContainer

namespace Writer

lemma toList_append (w : Writer) (bytes : List UInt8) :
    (w.append bytes).bytes.toList = w.bytes.toList ++ bytes := by simp [append]

lemma position_append (w : Writer) (bytes : List UInt8) :
    (w.append bytes).position = w.position + bytes.length := by
  rw [position, ← Array.length_toList, toList_append, List.length_append, Array.length_toList]
  rfl

lemma eq_of_toList {w w' : Writer} (h : w.bytes.toList = w'.bytes.toList) : w = w' := by
  cases w
  cases w'
  exact congrArg Writer.mk (Array.ext' h)

lemma append_append (w : Writer) (bytes more : List UInt8) :
    (w.append bytes).append more = w.append (bytes ++ more) := by
  apply eq_of_toList
  simp only [toList_append, List.append_assoc]

lemma append_nil (w : Writer) : w.append [] = w := by simp [append]

lemma words_eq_append (w : Writer) (ws : List UInt32) :
    w.words ws = w.append (ws.flatMap bytesOfWord) := by
  induction ws generalizing w with
  | nil => exact w.append_nil.symm
  | cons x ws ih =>
    change (w.word x).words ws = _
    rw [ih, word, append_append, List.flatMap_cons]

end Writer

lemma length_flatMap_bytesOfWord (ws : List UInt32) :
    (ws.flatMap bytesOfWord).length = 4 * ws.length := by
  induction ws with
  | nil => rfl
  | cons x ws ih =>
    rw [List.flatMap_cons, List.length_append, ih, List.length_cons, bytesOfWord]
    simp only [List.length_cons, List.length_nil]
    omega

/-- The bytes of an instruction whose references are records of the script. -/
def Script.bytesOf (s : Script) (i : Instruction .bound) : List UInt8 :=
  match i.encode s with
  | .ok ws => ws.flatMap bytesOfWord
  | .error _ => []

/-- All references of an instruction are records of the script. -/
def Script.Encodes (s : Script) (i : Instruction .bound) : Prop := ∃ ws, i.encode s = .ok ws

lemma Script.Encodes.length_bytesOf {s : Script} {i : Instruction .bound} (h : s.Encodes i) :
    (s.bytesOf i).length = i.size := by
  obtain ⟨ws, hws⟩ := h
  rw [bytesOf, hws, length_flatMap_bytesOfWord, Instruction.length_of_encode hws]

namespace Nesting

/-- The bytes of the code, given those of each instruction. -/
def bytes (write : Instruction .bound → List UInt8) : Nesting → List UInt8
  | done => []
  | step i rest => write i ++ rest.bytes write
  | host i _ inner rest => write i ++ (inner.bytes write ++ rest.bytes write)

/-- The instructions of the function and of those that stand inside. -/
def allCode : Nesting → Body .bound
  | done => []
  | step i rest => i :: rest.allCode
  | host i _ inner rest => i :: (inner.allCode ++ rest.allCode)

/-- The scopes of the functions that stand inside a function with the scopes `scopes`. -/
def chains (scopes : List RecordId) : Nesting → List Chain
  | done => []
  | step _ rest => rest.chains scopes
  | host _ id inner rest =>
    ⟨id, scopes ++ [id]⟩ :: (inner.chains (scopes ++ [id]) ++ rest.chains scopes)

/-- The ends of the instructions of the functions that stand inside, where the code starts at
`start`; a function comes after those that stand inside it. -/
def ends : Nat → Nesting → List Ends
  | _, done => []
  | start, step i rest => rest.ends (start + i.size)
  | start, host i id inner rest =>
    inner.ends (start + i.size) ++ ⟨id, (inner.stops (start + i.size)).map UInt32.ofNat⟩ ::
      rest.ends (start + i.size + inner.size)

lemma length_bytes {n : Nesting} {s : Script} (h : ∀ i ∈ n.allCode, s.Encodes i) :
    (n.bytes s.bytesOf).length = n.size := by
  induction n with
  | done => rfl
  | step i rest ih =>
    rw [allCode, List.forall_mem_cons] at h
    rw [bytes, size, List.length_append, h.1.length_bytesOf, ih h.2]
  | host i id inner rest ihi ihr =>
    rw [allCode, List.forall_mem_cons, List.forall_mem_append] at h
    obtain ⟨hi, hinner, hrest⟩ := h
    rw [bytes, size, List.length_append, List.length_append, hi.length_bytesOf, ihi hinner,
      ihr hrest, Nat.add_assoc]

end Nesting

/-- An emission after more has been written: the bytes, the parts in order, and what has been noted
of the functions. -/
def Emission.extend (e : Emission) (bytes : List UInt8) (parts : List Part) (chains : List Chain)
    (ends : List Ends) : Emission :=
  ⟨e.writer.append bytes, ⟨parts.reverse ++ e.seen.parts⟩, ends.foldl Registry.insert e.ends,
    chains.foldl Registry.insert e.chains⟩

namespace Emission

lemma extend_nil (e : Emission) : e.extend [] [] [] [] = e := by
  simp [extend, Writer.append_nil]

lemma extend_extend (e : Emission) (bytes bytes' : List UInt8) (parts parts' : List Part)
    (chains chains' : List Chain) (ends ends' : List Ends) :
    (e.extend bytes parts chains ends).extend bytes' parts' chains' ends' =
      e.extend (bytes ++ bytes') (parts ++ parts') (chains ++ chains') (ends ++ ends') := by
  simp [extend, Writer.append_append, List.foldl_append]

lemma extend_ends (e : Emission) (x : Ends) :
    { e with ends := e.ends.insert x } = e.extend [] [] [] [x] := by
  simp [extend, Writer.append_nil]

end Emission

section Require

variable {s : Script}

lemma Script.requireFunction_of_get? {id : RecordId} {f : Function}
    (h : s.functions.get? id = some f) : s.requireFunction id = .ok f := by
  unfold Script.requireFunction
  rw [h]

lemma Script.requireTable_of_table? {ref : TableRef} {t : Table} (h : s.table? ref = some t) :
    s.requireTable ref = .ok t := by
  unfold Script.requireTable
  rw [h]

end Require

namespace Emit

/-- What writing a function does with an instruction of it, in the scope of the function. -/
def step (ctx : Context) (depth : Nat) (instruction : Instruction .bound) : Emit UInt32 := do
  words (← instruction.encode ctx.script)
  let stop ← offset ctx.codeBase
  match instruction.spawned? with
  | none => pure ()
  | some id =>
    if ← isSeen (.function id) then pure ()
    else
      let spawned ← ctx.script.requireFunction id
      expect ctx.codeBase spawned.codeStart (.spawned spawned.describe)
      function ctx depth spawned
  return UInt32.ofNat stop

lemma function_succ (ctx : Context) (depth : Nat) (f : Function) :
    function ctx (depth + 1) f = (do
      visit (.function f.id)
      modify fun e =>
        { e with chains := e.chains.insert ⟨f.id, (ctx.push f).scopes.reverse.map Function.id⟩ }
      let offsets ← f.code.mapM (step (ctx.push f) depth)
      modify fun e => { e with ends := e.ends.insert ⟨f.id, offsets⟩ }
      expect ctx.codeBase f.codeEnd (.endOf f.describe)) := rfl

variable {e : Emission} {part : Part}

lemma lift_of_ok {α : Type} {x : Except Error α} {a : α} (h : x = .ok a) :
    (liftM x : Emit α) e = .ok (a, e) := by
  rw [h]
  rfl

lemma lift_of_error {α : Type} {x : Except Error α} {err : Error} (h : x = .error err) :
    (liftM x : Emit α) e = .error err := by
  rw [h]
  rfl

lemma words_apply (ws : List UInt32) :
    words ws e = .ok ((), e.extend (ws.flatMap bytesOfWord) [] [] []) := by
  change Except.ok ((), { e with writer := e.writer.words ws }) = _
  rw [Writer.words_eq_append]
  rfl

lemma isSeen_apply : isSeen part e = .ok (decide (part ∈ e.seen.parts), e) := by
  change Except.ok (e.seen.parts.elem part, e) = _
  rw [List.elem_eq_mem]

lemma offset_apply (base : Nat) : offset base e = .ok (e.writer.position - base, e) := rfl

lemma expect_apply {base : Nat} {laidOut : UInt32} {place : Place}
    (h : e.writer.position = base + laidOut.toNat) : expect base laidOut place e = .ok ((), e) := by
  unfold expect
  rw [stateT_bind_of_ok (offset_apply base), if_pos (by omega)]
  rfl

lemma visit_apply (h : part ∉ e.seen.parts) : visit part e = .ok ((), e.extend [] [part] [] []) := by
  have hv : e.seen.visit part = .ok ⟨part :: e.seen.parts⟩ := by
    unfold Seen.visit Seen.contains
    rw [if_neg (by simpa using h)]
  unfold visit
  rw [stateT_bind_of_ok (rfl : (get : Emit Emission) e = .ok (e, e)),
    stateT_bind_of_ok (lift_of_ok hv)]
  change Except.ok ((), { e with seen := ⟨part :: e.seen.parts⟩ }) = _
  simp [Emission.extend, Writer.append_nil]

end Emit

namespace Emit

/-- What writing the instructions of a function brings about, the functions inside included. -/
def Writes (n : Nesting) : Prop :=
  ∀ (ctx : Context) (depth start : Nat) (e : Emission),
    n.height ≤ depth → start + n.size < UInt32.size → e.writer.position = ctx.codeBase + start →
    n.Proper ctx.script.body? (fun x => .function x ∈ e.seen.parts) →
    (∀ p ∈ n.plots start, ctx.script.Holds p) →
    YieldsIf (n.code.mapM (step ctx depth) e)
      ((n.stops start).map UInt32.ofNat,
        e.extend (n.bytes ctx.script.bytesOf) (n.ids.map .function)
          (n.chains (ctx.scopes.reverse.map Function.id)) (n.ends start))
      (∀ i ∈ n.allCode, ctx.script.Encodes i) Error.IsUnknown

lemma Writes.function {n : Nesting} (h : Writes n) (ctx : Context) {depth start : Nat}
    {e : Emission} {f : Function} {scopes : List RecordId}
    (hscopes : scopes = ctx.scopes.reverse.map Function.id ++ [f.id])
    (hcode : f.code = n.code) (hstop : f.codeEnd.toNat = start + n.size)
    (hdepth : n.height < depth) (hfits : start + n.size < UInt32.size)
    (hpos : e.writer.position = ctx.codeBase + start)
    (hseen : .function f.id ∉ e.seen.parts)
    (hproper : n.Proper ctx.script.body? (fun x => x = f.id ∨ .function x ∈ e.seen.parts))
    (hplots : ∀ p ∈ n.plots start, ctx.script.Holds p) :
    YieldsIf (function ctx depth f e)
      ((), e.extend (n.bytes ctx.script.bytesOf)
        (.function f.id :: n.ids.map .function) (⟨f.id, scopes⟩ :: n.chains scopes)
        (n.ends start ++ [⟨f.id, (n.stops start).map UInt32.ofNat⟩]))
      (∀ i ∈ n.allCode, ctx.script.Encodes i) Error.IsUnknown := by
  cases depth with
  | zero => omega
  | succ depth =>
    rw [function_succ, stateT_bind_of_ok (visit_apply hseen)]
    let entered := e.extend [] [.function f.id] [⟨f.id, scopes⟩] []
    have hpushed : (ctx.push f).scopes.reverse.map Function.id = scopes := by
      simp [Context.push, hscopes]
    rw [hpushed]
    rw [stateT_bind_of_ok (t := entered) (a := ()) rfl]
    have hbody := h (ctx.push f) depth start entered (by omega) hfits hpos
      (hproper.congr fun x => by simp [entered, Emission.extend]) hplots
    rw [hpushed, ← hcode] at hbody
    refine hbody.bindReturn fun hall => ?_
    rw [stateT_bind_of_ok (a := ()) rfl, expect_apply]
    · simp only [entered, Emission.extend_extend, Emission.extend_ends, List.nil_append,
        List.append_nil, List.cons_append]
      rfl
    · have hlength : (n.bytes ctx.script.bytesOf).length = n.size := Nesting.length_bytes hall
      change (entered.writer.append (n.bytes ctx.script.bytesOf)).position = _
      rw [Writer.position_append, hlength, hstop, ← Nat.add_assoc, ← hpos]
      simp only [entered, Emission.extend, Writer.append_nil]

end Emit

namespace Emit

variable {ctx : Context} {depth start : Nat} {e : Emission} {i : Instruction .bound}

lemma step_outcome (depth : Nat) (i : Instruction .bound)
    (hpos : e.writer.position = ctx.codeBase + start) :
    (∃ err, step ctx depth i e = .error err ∧ err.IsUnknown ∧ ¬ ctx.script.Encodes i) ∨
      ctx.script.Encodes i ∧ step ctx depth i e =
        (do
          match i.spawned? with
          | none => pure ()
          | some id =>
            if ← isSeen (.function id) then pure ()
            else
              let spawned ← ctx.script.requireFunction id
              expect ctx.codeBase spawned.codeStart (.spawned spawned.describe)
              function ctx depth spawned
          return UInt32.ofNat (start + i.size) : Emit UInt32)
          (e.extend (ctx.script.bytesOf i) [] [] []) := by
  cases hi : i.encode ctx.script with
  | error err =>
    left
    refine ⟨err, ?_, Instruction.encode_error hi, ?_⟩
    · unfold step
      exact stateT_bind_of_error (lift_of_error hi)
    · rintro ⟨ws, hws⟩
      rw [hi] at hws
      cases hws
  | ok ws =>
    right
    have hbytes : ctx.script.bytesOf i = ws.flatMap bytesOfWord := by rw [Script.bytesOf, hi]
    refine ⟨⟨ws, hi⟩, ?_⟩
    unfold step
    rw [stateT_bind_of_ok (lift_of_ok hi), stateT_bind_of_ok (words_apply ws),
      stateT_bind_of_ok (offset_apply _), ← hbytes]
    have hlength := Script.Encodes.length_bytesOf ⟨ws, hi⟩
    have hoffset : (e.extend (ctx.script.bytesOf i) [] [] []).writer.position - ctx.codeBase =
        start + i.size := by
      simp only [Emission.extend, Writer.position_append]
      omega
    rw [hoffset]

end Emit

namespace Emit

variable {ctx : Context} {depth start : Nat} {e : Emission} {i : Instruction .bound}

/-- An instruction that starts no function, or one that has been written, leaves its bytes. -/
lemma step_passes (hpos : e.writer.position = ctx.codeBase + start)
    (hs : ∀ id, i.spawned? = some id → .function id ∈ e.seen.parts) :
    YieldsIf (step ctx depth i e)
      (UInt32.ofNat (start + i.size), e.extend (ctx.script.bytesOf i) [] [] [])
      (ctx.script.Encodes i) Error.IsUnknown := by
  rcases step_outcome depth i hpos with ⟨err, hstep, herr⟩ | ⟨hi, hstep⟩
  · rw [hstep]
    exact herr
  · rw [hstep]
    cases hspawn : i.spawned? with
    | none => exact ⟨rfl, hi⟩
    | some id =>
      have hmem : .function id ∈ (e.extend (ctx.script.bytesOf i) [] [] []).seen.parts :=
        hs id hspawn
      dsimp only
      rw [stateT_bind_of_ok isSeen_apply, if_pos (decide_eq_true hmem)]
      exact ⟨rfl, hi⟩

/-- An instruction that starts a function which has not been written leaves its bytes and those of
the function. -/
lemma step_hosts {id : RecordId} {inner : Nesting} (h : Writes inner) {scopes : List RecordId}
    (hscopes : scopes = ctx.scopes.reverse.map Function.id ++ [id])
    (hpos : e.writer.position = ctx.codeBase + start) (hspawn : i.spawned? = some id)
    (hseen : .function id ∉ e.seen.parts) (hdepth : inner.height < depth)
    (hfits : start + i.size + inner.size < UInt32.size)
    (hproper : inner.Proper ctx.script.body? (fun x => x = id ∨ .function x ∈ e.seen.parts))
    (hplots : ∀ p ∈ (Plot.mk id (start + i.size) inner true) :: inner.plots (start + i.size),
      ctx.script.Holds p) :
    YieldsIf (step ctx depth i e)
      (UInt32.ofNat (start + i.size),
        e.extend (ctx.script.bytesOf i ++ inner.bytes ctx.script.bytesOf)
          (.function id :: inner.ids.map .function) (⟨id, scopes⟩ :: inner.chains scopes)
          (inner.ends (start + i.size) ++
            [⟨id, (inner.stops (start + i.size)).map UInt32.ofNat⟩]))
      (ctx.script.Encodes i ∧ ∀ j ∈ inner.allCode, ctx.script.Encodes j) Error.IsUnknown := by
  rcases step_outcome depth i hpos with ⟨err, hstep, herr, hnot⟩ | ⟨hi, hstep⟩
  · rw [hstep]
    exact ⟨herr, fun hall => hnot hall.1⟩
  · obtain ⟨hself, hguests⟩ := List.forall_mem_cons.mp hplots
    obtain ⟨f, hf, hstart, hstop, -, hcode⟩ := hself
    have hid : f.id = id := Registry.id_of_get? hf
    subst hid
    let written := e.extend (ctx.script.bytesOf i) [] [] []
    have hparts : written.seen.parts = e.seen.parts := rfl
    have hnew : .function f.id ∉ written.seen.parts := hseen
    have hposition : written.writer.position = ctx.codeBase + (start + i.size) := by
      rw [← Nat.add_assoc, ← hpos, ← hi.length_bytesOf]
      exact Writer.position_append _ _
    have hrequire : ctx.script.requireFunction f.id = .ok f := Script.requireFunction_of_get? hf
    have hinner := h.function ctx hscopes hcode hstop hdepth hfits hposition hnew
      (by rwa [hparts]) hguests
    rw [hstep, hspawn]
    dsimp only
    rw [stateT_bind_of_ok isSeen_apply, if_neg fun h => hnew (of_decide_eq_true h),
      stateT_bind_of_ok (lift_of_ok hrequire),
      stateT_bind_of_ok (expect_apply (by rw [hstart, hposition]))]
    refine (hinner.bindReturn fun _ => rfl).congr ?_ (and_iff_right hi).symm
    refine Prod.ext rfl ?_
    simp only [written, Emission.extend_extend, List.nil_append]

end Emit

namespace Emit

/-- Writing the instructions of a function in place writes its nesting. -/
theorem writes (n : Nesting) : Writes n := by
  induction n with
  | done =>
    intro ctx depth start e _ _ _ _ _
    exact ⟨Prod.ext rfl e.extend_nil.symm, by simp [Nesting.allCode]⟩
  | step i rest ih =>
    intro ctx depth start e hdepth hfits hpos hproper hplots
    rw [Nesting.code, List.mapM_cons]
    rw [Nesting.size, ← Nat.add_assoc] at hfits
    have hposition (hi : ctx.script.Encodes i) :
        (e.extend (ctx.script.bytesOf i) [] [] []).writer.position =
          ctx.codeBase + (start + i.size) := by
      rw [← Nat.add_assoc, ← hpos, ← hi.length_bytesOf]
      exact Writer.position_append _ _
    refine ((step_passes hpos hproper.1).bind fun hi =>
      (ih ctx depth _ _ hdepth hfits (hposition hi) hproper.2 hplots).bindReturn fun _ => rfl).congr ?_
        List.forall_mem_cons.symm
    refine Prod.ext rfl ?_
    simp only [Emission.extend_extend, List.nil_append]
    rfl
  | host i id inner rest ihi ihr =>
    intro ctx depth start e hdepth hfits hpos hproper hplots
    obtain ⟨hspawn, hseen, hbody, hinner, hproper⟩ := hproper
    rw [Nesting.plots, ← List.cons_append, List.forall_mem_append] at hplots
    rw [Nesting.size] at hfits
    rw [Nesting.height, Nat.max_le] at hdepth
    rw [Nesting.code, List.mapM_cons]
    let scopes := ctx.scopes.reverse.map Function.id ++ [id]
    -- The rest is written behind the inner functions, of which it knows only that they are written.
    let hosted := e.extend (ctx.script.bytesOf i ++ inner.bytes ctx.script.bytesOf)
      (.function id :: inner.ids.map .function) (⟨id, scopes⟩ :: inner.chains scopes)
      (inner.ends (start + i.size) ++ [⟨id, (inner.stops (start + i.size)).map UInt32.ofNat⟩])
    have hstep : YieldsIf (step ctx depth i e) (_, hosted) _ _ :=
      step_hosts ihi rfl hpos hspawn hseen (by omega) (by omega) hinner hplots.1
    have hposition (hi : ctx.script.Encodes i ∧ ∀ j ∈ inner.allCode, ctx.script.Encodes j) :
        hosted.writer.position = ctx.codeBase + (start + i.size + inner.size) := by
      change (e.writer.append (ctx.script.bytesOf i ++ inner.bytes ctx.script.bytesOf)).position = _
      rw [Writer.position_append, List.length_append, hi.1.length_bytesOf,
        Nesting.length_bytes hi.2, hpos]
      omega
    have hrest : rest.Proper ctx.script.body? (fun x => .function x ∈ hosted.seen.parts) := by
      refine hproper.congr fun x => ?_
      simp [hosted, Emission.extend]
      tauto
    refine (hstep.bind fun hi => (ihr ctx depth _ hosted (by omega) (by omega) (hposition hi) hrest
      hplots.2).bindReturn fun _ => rfl).congr ?_ ?_
    · refine Prod.ext rfl ?_
      rw [Emission.extend_extend]
      simp [scopes, Nesting.bytes, Nesting.ids, Nesting.chains, Nesting.ends]
    · rw [Nesting.allCode, List.forall_mem_cons, List.forall_mem_append, and_assoc]

end Emit

end ScriptContainer
