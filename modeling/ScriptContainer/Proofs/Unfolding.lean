import ScriptContainer.Proofs.Binding
import ScriptContainer.Proofs.Recovering

/-!
# Code that has been read

Code that is read from any container is the code of a nesting: each function inside was declared
where it stands, had not been read before, and follows an instruction that starts it.
-/

namespace ScriptContainer

/-- The function of the plot is declared with this place. -/
def Script.Declares (s : Script) (p : Plot) : Prop :=
  ∃ f, s.functions.get? p.id = some f ∧ f.codeStart.toNat = p.start ∧ f.codeEnd.toNat = p.stop

/-- The instruction can be read from the bytes before its end, which is counted from the start of
the code region. -/
def Script.Finds (s : Script) (bytes : Array UInt8) (base : Nat) (entry : Instruction .bound × Nat) :
    Prop :=
  ∃ (ctx : Context) (r : Reader), ctx.script = s ∧ r.bytes = bytes ∧
    r.offset + entry.1.size = base + entry.2 ∧
    Read.instruction ctx r = .ok entry.1 (r.skip entry.1.size)

/-- A nesting that stands at `start`, as reading comes upon it where the functions of `seen` have
been read. -/
structure Unfolds (s : Script) (bytes : Array UInt8) (base : Nat) (seen : RecordId → Prop)
    (start : Nat) (n : Nesting) : Prop where
  declares : ∀ p ∈ n.plots start, s.Declares p
  once : n.ids.Nodup ∧ ∀ x ∈ n.ids, ¬ seen x
  proper : ∀ body?, (∀ entry ∈ n.bodies, body? entry.1 = some entry.2) → n.Proper body? seen
  finds : ∀ entry ∈ n.instructionsFrom start, s.Finds bytes base entry

namespace Unfolds

variable {s : Script} {bytes : Array UInt8} {base start : Nat} {seen seen' : RecordId → Prop}
  {n inner : Nesting} {i : Instruction .bound} {id : RecordId}

lemma congr (h : Unfolds s bytes base seen start n) (hs : ∀ x, seen x ↔ seen' x) :
    Unfolds s bytes base seen' start n := by
  have : seen = seen' := funext fun x => propext (hs x)
  rwa [← this]

lemma done : Unfolds s bytes base seen start .done :=
  ⟨List.forall_mem_nil _, ⟨.nil, List.forall_mem_nil _⟩, fun _ _ => trivial, List.forall_mem_nil _⟩

lemma step (hfound : s.Finds bytes base (i, start + i.size))
    (hseen : ∀ id, i.spawned? = some id → seen id)
    (h : Unfolds s bytes base seen (start + i.size) n) :
    Unfolds s bytes base seen start (.step i n) where
  declares := h.declares
  once := h.once
  proper body? hbody := ⟨hseen, h.proper body? hbody⟩
  finds := by
    rw [Nesting.instructionsFrom_step, List.forall_mem_cons]
    exact ⟨hfound, h.finds⟩

lemma host (hfound : s.Finds bytes base (i, start + i.size)) (hspawn : i.spawned? = some id)
    (hnew : ¬ seen id) (hdeclared : s.Declares ⟨id, start + i.size, inner, true⟩)
    (hinner : Unfolds s bytes base (fun x => x = id ∨ seen x) (start + i.size) inner)
    (h : Unfolds s bytes base (fun x => x ∈ id :: inner.ids ∨ seen x)
      (start + i.size + inner.size) n) :
    Unfolds s bytes base seen start (.host i id inner n) where
  declares := by
    rw [Nesting.plots, List.forall_mem_cons, List.forall_mem_append]
    exact ⟨hdeclared, hinner.declares, h.declares⟩
  once := Nesting.reached_once hnew hinner.once h.once
  proper body? hbody := by
    rw [Nesting.bodies, List.forall_mem_append, List.forall_mem_cons] at hbody
    exact ⟨hspawn, hnew, hbody.2.1, hinner.proper body? hbody.1, h.proper body? hbody.2.2⟩
  finds := by
    intro entry hentry
    rw [(Nesting.instructionsFrom_host start i id inner n).mem_iff, List.mem_cons,
      List.mem_append] at hentry
    rcases hentry with rfl | hentry | hentry
    · exact hfound
    · exact hinner.finds entry hentry
    · exact h.finds entry hentry

lemma exists_proper (h : Unfolds s bytes base seen start n) : ∃ body?, n.Proper body? seen := by
  let body? (id : RecordId) : Option (Body .bound) :=
    (n.bodies.find? fun entry => entry.1 == id).map Prod.snd
  refine ⟨body?, h.proper body? fun entry hentry => ?_⟩
  have hn : (n.bodies.map Prod.fst).Nodup := n.map_fst_bodies.nodup_iff.mpr h.once.1
  have hsome : (n.bodies.find? fun other => other.1 == entry.1).isSome :=
    List.find?_isSome.mpr ⟨entry, hentry, beq_self_eq_true entry.1⟩
  obtain ⟨other, hother⟩ := Option.isSome_iff_exists.mp hsome
  have hid : other.1 = entry.1 := by simpa using List.find?_some hother
  obtain rfl := List.inj_on_of_nodup_map hn (List.mem_of_find?_eq_some hother) hentry hid
  exact congrArg (Option.map Prod.snd) hother

end Unfolds

lemma Script.get?_of_requireFunction {s : Script} {id : RecordId} {f : Function}
    (h : s.requireFunction id = .ok f) : s.functions.get? id = some f := by
  unfold requireFunction at h
  cases hf : s.functions.get? id with
  | none =>
    rw [hf] at h
    cases h
  | some g =>
    rw [hf] at h
    exact congrArg some (Except.ok.inj h)

namespace Walking

variable {ctx : Context} {walk : Walk}

lemma visit_of_mem {part : Part} (h : part ∈ walk.seen.parts) :
    visit part walk = .error (.doubleVisit part) walk := by
  have hvisit : walk.seen.visit part = .error (.doubleVisit part) := by
    unfold Seen.visit Seen.contains
    rw [List.elem_eq_mem, decide_eq_true h]
    rfl
  unfold visit
  rw [bind_of_ok (rfl : (get : Walking Walk) walk = .ok walk walk), hvisit]
  rfl

lemma visit_outcome (part : Part) :
    Outcome (visit part walk)
      (fun _ next => part ∉ walk.seen.parts ∧ next = { walk with seen := ⟨part :: walk.seen.parts⟩ })
      fun _ => True := by
  by_cases h : part ∈ walk.seen.parts
  · rw [visit_of_mem h]
    trivial
  · rw [visit_apply h]
    exact ⟨h, rfl⟩

lemma ofExcept_outcome {α : Type} (x : Except Error α) :
    Outcome ((ofExcept x : Walking α) walk) (fun a next => x = .ok a ∧ next = walk)
      fun _ => True := by
  cases x with
  | ok a => exact ⟨rfl, rfl⟩
  | error e => trivial

lemma ofRead_outcome {α : Type} {read : Read α} {takes : α → Nat → Prop}
    (h : Consumes read takes) :
    Outcome (ofRead read walk)
      (fun a next => ∃ count, takes a count ∧ read walk.reader = .ok a (walk.reader.skip count) ∧
        next = { walk with reader := walk.reader.skip count }) fun _ => True := by
  unfold ofRead
  cases hread : read walk.reader with
  | ok a r =>
    obtain ⟨count, htakes, rfl⟩ := h.of_ok hread
    exact ⟨count, htakes, rfl, rfl⟩
  | error e r => trivial

/-- The functions that a walk has come upon. -/
def met (walk : Walk) (id : RecordId) : Prop := .function id ∈ walk.seen.parts

/-- Reading has gone over code from `start` to `stop`. -/
def HasRead (ctx : Context) (walk : Walk) (start stop : Nat) (code : Body .bound) (walk' : Walk) : Prop :=
  ∃ n : Nesting, n.code = code ∧ start + n.size = stop ∧ walk' = walk.past n n.bodies ∧
    Unfolds ctx.script walk.reader.bytes ctx.codeBase (met walk) start n

/-- Reading has gone over a function that stands at `start`. -/
def HasReadFunction (ctx : Context) (walk : Walk) (start : Nat) (f : Function) (walk' : Walk) : Prop :=
  ∃ n : Nesting, ¬ met walk f.id ∧ start + n.size = f.codeEnd.toNat ∧
    walk' = walk.pastFunction f.id n (n.code, n.bodies) ∧
    Unfolds ctx.script walk.reader.bytes ctx.codeBase (fun x => x = f.id ∨ met walk x) start n

/-- Reading has gone over the function that an instruction before `start` starts, unless it had been
read before. -/
def HasSpawned (ctx : Context) (walk : Walk) (start : Nat) (id : RecordId) (walk' : Walk) : Prop :=
  (met walk id ∧ walk' = walk) ∨
    ∃ f, ctx.script.functions.get? id = some f ∧ f.codeStart.toNat = start ∧
      HasReadFunction ctx { walk with
        findings := { walk.findings with inlined := id :: walk.findings.inlined } } start f walk'

lemma HasRead.done {start : Nat} : HasRead ctx walk start start [] walk :=
  ⟨.done, rfl, rfl, walk.past_done.symm, .done⟩

section Step

variable {start stop : Nat} {i : Instruction .bound} {rest : Body .bound} {walk' : Walk}

lemma finds_of_read (hpos : walk.reader.offset = ctx.codeBase + start)
    (hread : Read.instruction ctx walk.reader = .ok i (walk.reader.skip i.size)) :
    ctx.script.Finds walk.reader.bytes ctx.codeBase (i, start + i.size) :=
  ⟨ctx, walk.reader, rfl, rfl, by rw [hpos, Nat.add_assoc], hread⟩

lemma HasRead.step (hfound : ctx.script.Finds walk.reader.bytes ctx.codeBase (i, start + i.size))
    (hseen : ∀ id, i.spawned? = some id → met walk id)
    (h : HasRead ctx { walk with reader := walk.reader.skip i.size } (start + i.size) stop rest walk') :
    HasRead ctx walk start stop (i :: rest) walk' := by
  obtain ⟨n, rfl, hsize, hwalk, hunfolds⟩ := h
  refine ⟨.step i n, rfl, ?_, ?_, .step hfound hseen hunfolds⟩
  · rw [Nesting.size]
    omega
  · rw [hwalk, Walk.past_step]
    rfl

lemma HasRead.host {id : RecordId} {f : Function} {middle : Walk}
    (hfound : ctx.script.Finds walk.reader.bytes ctx.codeBase (i, start + i.size))
    (hspawn : i.spawned? = some id) (hf : ctx.script.functions.get? id = some f)
    (hstart : f.codeStart.toNat = start + i.size)
    (hinner : HasReadFunction ctx { walk with
      reader := walk.reader.skip i.size
      findings := { walk.findings with inlined := id :: walk.findings.inlined } } (start + i.size) f
      middle)
    (h : HasRead ctx middle (f.codeEnd.toNat) stop rest walk') :
    HasRead ctx walk start stop (i :: rest) walk' := by
  obtain rfl : f.id = id := Registry.id_of_get? hf
  obtain ⟨inner, hnew, hinnerSize, rfl, hinside⟩ := hinner
  obtain ⟨n, rfl, hsize, hwalk, hunfolds⟩ := h
  have hplace : start + i.size + inner.size = f.codeEnd.toNat := hinnerSize
  have hdeclared : ctx.script.Declares ⟨f.id, start + i.size, inner, true⟩ :=
    ⟨f, hf, hstart, hplace.symm⟩
  have hmet : ∀ x, met (Walk.pastFunction { walk with
      reader := walk.reader.skip i.size
      findings := { walk.findings with inlined := f.id :: walk.findings.inlined } } f.id inner
      (inner.code, inner.bodies)) x ↔ x ∈ f.id :: inner.ids ∨ met walk x := by
    intro x
    simp only [met, Walk.pastFunction, List.mem_append, List.mem_reverse, List.mem_map,
      Part.function.injEq, exists_eq_right, List.mem_cons]
    tauto
  refine ⟨.host i f.id inner n, rfl, ?_, ?_, .host hfound hspawn hnew hdeclared hinside ?_⟩
  · rw [Nesting.size]
    omega
  · rw [hwalk, Walk.past_host]
    rfl
  · rw [hplace]
    exact hunfolds.congr hmet

end Step

lemma HasReadFunction.offset_eq {start : Nat} {f : Function} {walk' : Walk}
    (h : HasReadFunction ctx walk start f walk') (hpos : walk.reader.offset = ctx.codeBase + start) :
    walk'.reader.offset = ctx.codeBase + f.codeEnd.toNat := by
  obtain ⟨n, -, hsize, rfl, -⟩ := h
  change walk.reader.offset + n.size = _
  omega

mutual

lemma body_outcome (ctx : Context) (steps stop : Nat) {start : Nat} {walk : Walk}
    (hpos : walk.reader.offset = ctx.codeBase + start) :
    Outcome (body ctx (ctx.codeBase + stop) steps walk) (HasRead ctx walk start stop)
      fun _ => True := by
  match steps with
  | 0 => trivial
  | steps + 1 =>
    rcases Nat.lt_trichotomy start stop with hlt | rfl | hgt
    · rw [body_step (by omega)]
      refine (ofRead_outcome Read.instruction_consumes).bind fun i next hnext => ?_
      obtain ⟨count, rfl, hread, rfl⟩ := hnext
      have hfound := finds_of_read hpos hread
      let moved : Walk := { walk with reader := walk.reader.skip i.size }
      have hplace : moved.reader.offset = ctx.codeBase + (start + i.size) := by
        rw [← Nat.add_assoc, ← hpos]
        rfl
      unfold Walking.start
      cases hspawn : i.spawned? with
      | none =>
        refine (body_outcome ctx steps stop hplace).bind fun rest last hlast => ?_
        exact hlast.step hfound fun id hid => by rw [hspawn] at hid; cases hid
      | some id =>
        refine (spawned_outcome ctx id steps hplace).bind fun _ middle hmiddle => ?_
        rcases hmiddle with ⟨hmet, rfl⟩ | ⟨f, hf, hstart, hinner⟩
        · refine (body_outcome ctx steps stop hplace).bind fun rest last hlast => ?_
          refine hlast.step hfound fun id' hid' => ?_
          rw [hspawn] at hid'
          exact Option.some.inj hid' ▸ hmet
        · refine (body_outcome ctx steps stop (hinner.offset_eq hplace)).bind
            fun rest last hlast => ?_
          exact .host hfound hspawn hf hstart hinner hlast
    · rw [body_end hpos]
      exact .done
    · rw [body, bind_of_ok offset_apply, if_neg (by omega), if_neg (by omega)]
      trivial
termination_by structural steps

lemma spawned_outcome (ctx : Context) (id : RecordId) (steps : Nat) {start : Nat} {walk : Walk}
    (hpos : walk.reader.offset = ctx.codeBase + start) :
    Outcome (spawned ctx id steps walk) (fun _ => HasSpawned ctx walk start id) fun _ => True := by
  match steps with
  | 0 => trivial
  | steps + 1 =>
    by_cases hmet : .function id ∈ walk.seen.parts
    · rw [spawned_of_mem hmet]
      exact .inl ⟨hmet, rfl⟩
    · rw [spawned, bind_of_ok isSeen_apply, if_neg fun hmem => hmet (of_decide_eq_true hmem)]
      refine (ofExcept_outcome _).bind fun f next hnext => ?_
      obtain ⟨hf, rfl⟩ := hnext
      have hf := Script.get?_of_requireFunction hf
      rw [bind_of_ok offset_apply]
      split
      case isTrue => trivial
      case isFalse hplace =>
        rw [not_not, hpos] at hplace
        let noted : Walk := { next with
          findings := { next.findings with inlined := id :: next.findings.inlined } }
        have hrun : Outcome (function ctx f steps noted)
            (fun _ => HasReadFunction ctx noted start f) fun _ => True :=
          function_outcome ctx f steps hpos
        refine Outcome.mono hrun (fun _ walk' h => ?_) fun _ h => h
        exact .inr ⟨f, hf, by omega, h⟩
termination_by structural steps

lemma function_outcome (ctx : Context) (f : Function) (steps : Nat) {start : Nat} {walk : Walk}
    (hpos : walk.reader.offset = ctx.codeBase + start) :
    Outcome (function ctx f steps walk) (fun _ => HasReadFunction ctx walk start f) fun _ => True := by
  match steps with
  | 0 => trivial
  | steps + 1 =>
    rw [function]
    refine (visit_outcome _).bind fun _ entered hentered => ?_
    obtain ⟨hnew, rfl⟩ := hentered
    rw [bind_of_ok offset_apply]
    dsimp only
    split
    case isTrue => trivial
    case isFalse =>
      let entered : Walk := { walk with seen := ⟨.function f.id :: walk.seen.parts⟩ }
      have hbody : Outcome (body (ctx.push f) (ctx.codeBase + f.codeEnd.toNat) steps entered)
          (HasRead (ctx.push f) entered start f.codeEnd.toNat) fun _ => True :=
        body_outcome (ctx.push f) steps f.codeEnd.toNat hpos
      refine hbody.bind fun code last hlast => ?_
      obtain ⟨n, rfl, hsize, rfl, hunfolds⟩ := hlast
      refine ⟨n, hnew, hsize, ?_, hunfolds.congr fun x => ?_⟩
      · simp only [Walk.past, Walk.pastFunction, entered, List.append_assoc]
      · simp only [met, entered, List.mem_cons, Part.function.injEq]
termination_by structural steps

end

end Walking

end ScriptContainer
