import ScriptContainer.Region.Decoding
import ScriptContainer.Proofs.Decodes
import ScriptContainer.Proofs.EmittingRegion

/-!
# Reading code back

Code is read where it was written, and with it the functions inside, as long as a thread means the
same function to the reader as to the writer. What is read is the code with each reference looked up
by its number, in the scopes of the functions around it.
-/

namespace ScriptContainer

/-- The answer of a run and the state after it, or the failure. -/
def settled {ε σ α : Type} (run : EStateM.Result ε σ α) : Except ε (α × σ) :=
  match run with
  | .ok a t => .ok (a, t)
  | .error e _ => .error e

lemma settled_bind {ε σ α β : Type} (x : EStateM ε σ α) (f : α → EStateM ε σ β) (s : σ) :
    settled ((x >>= f) s) = settled (x s) >>= fun at' => settled (f at'.1 at'.2) := by
  cases h : x s with
  | ok a t =>
    rw [bind_of_ok h]
    rfl
  | error e t =>
    rw [bind_of_error h]
    rfl

lemma Instruction.threadCallee?_change {S T : Slots} {f : S.Change T (Except Error)}
    {i : Instruction S} {j : Instruction T} (h : i.change f = .ok j) :
    (i.threadCallee? = none ∧ j.threadCallee? = none) ∨
      ∃ callee found, i.threadCallee? = some callee ∧ f.callee callee = .ok found ∧
        j.threadCallee? = some found := by
  have hspawn {a : Spawn S} {b : Spawn T} (ha : a.change f = .ok b) :
      f.callee a.callee = .ok b.callee := by
    rw [Spawn.change] at ha
    obtain ⟨found, hfound, ha⟩ := bind_eq_ok_iff.mp ha
    obtain ⟨give, -, ha⟩ := bind_eq_ok_iff.mp ha
    obtain rfl := pure_eq_ok_iff.mp ha
    exact hfound
  cases i with
  | thread a | thread2 a =>
    obtain ⟨b, hb, rfl⟩ := map_eq_ok_iff.mp h
    exact .inr ⟨a.callee, b.callee, rfl, hspawn hb, rfl⟩
  | _ =>
    simp only [change, bind_eq_ok_iff, map_eq_ok_iff, pure_eq_ok_iff] at h
    grind [threadCallee?]

/-- The instruction can be written, and no word of it can be taken for another one. -/
def Script.Spells (s : Script) (i : Instruction .bound) : Prop :=
  ∃ n, i.change s.numbering = .ok n ∧ n.isClear

/-- The callee of a started thread is not taken for another record with its number. -/
def Script.KeepsCallee (s : Script) (i : Instruction .bound) : Prop :=
  ∀ callee, i.threadCallee? = some callee →
    ∀ found, (Context.new s).findCallee (.id callee.id) = .ok found → found = callee

lemma Context.isSome_of_findCallee (ctx : Context) {key id : RecordId}
    (h : ctx.findCallee (.id key) = .ok (.function id)) :
    (ctx.script.functions.get? key).isSome := by
  change orUnknown ((((ctx.script.imports.get? key).map Import.id).map Callee.imported).or
    (((ctx.script.functions.get? key).map Function.id).map Callee.function)) _ _ = _ at h
  cases himport : ctx.script.imports.get? key with
  | some i =>
    rw [himport] at h
    cases h
  | none =>
    cases hfunction : ctx.script.functions.get? key with
    | none =>
      rw [himport, hfunction] at h
      cases h
    | some f => rfl

namespace Script

variable {s : Script} {i j : Instruction .bound}

lemma Spells.encode (h : s.Spells i) : ∃ n, i.change s.numbering = .ok n ∧ n.isClear ∧
    s.bytesOf i = bytesOfWords n.words := by
  obtain ⟨n, hn, hclear⟩ := h
  refine ⟨n, hn, hclear, ?_⟩
  rw [bytesOf, Instruction.encode_eq_ok_iff.mpr ⟨n, hn, rfl⟩]
  rfl

lemma Spells.encodes (h : s.Spells i) : s.Encodes i := by
  obtain ⟨n, hn, -⟩ := h
  exact ⟨n.words, Instruction.encode_eq_ok_iff.mpr ⟨n, hn, rfl⟩⟩

lemma KeepsCallee.spawned?_eq {ctx : Context} (h : ctx.script.KeepsCallee i)
    (hj : i.change ctx.rebinding = .ok j) : j.spawned? = i.spawned? := by
  rcases Instruction.threadCallee?_change hj with ⟨hi, hj⟩ | ⟨callee, found, hi, hfound, hj⟩
  · rw [Instruction.spawned?, Instruction.spawned?, hi, hj]
  · obtain rfl := h callee hi found hfound
    rw [Instruction.spawned?, Instruction.spawned?, hi, hj]

lemma KeepsCallee.isSome_of_spawned? {ctx : Context} {id : RecordId} (h : ctx.script.KeepsCallee i)
    (hj : i.change ctx.rebinding = .ok j) (hid : i.spawned? = some id) :
    (ctx.script.functions.get? id).isSome := by
  rcases Instruction.threadCallee?_change hj with ⟨hi, -⟩ | ⟨callee, found, hi, hfound, -⟩
  · rw [Instruction.spawned?, hi] at hid
    cases hid
  · obtain rfl := h callee hi found hfound
    rw [Instruction.spawned?, hi] at hid
    cases found with
    | imported id => cases hid
    | function id' =>
      obtain rfl := Option.some.inj hid
      exact ctx.isSome_of_findCallee hfound

end Script

lemma Read.instruction_settled {s : Script} {i : Instruction .bound} (h : s.Spells i) (ctx : Context)
    {r : Reader} {rest : List UInt8} (hshows : r.Shows (s.bytesOf i ++ rest)) :
    settled (Read.instruction ctx r) =
      i.change ctx.rebinding >>= fun j => .ok (j, r.skip i.size) := by
  obtain ⟨n, hn, hclear, hbytes⟩ := h.encode
  have hchange := Instruction.change_change (s.numbering_then ctx) hn
  have hsize : (bytesOfWords n.words).length = i.size := by
    rw [length_bytesOfWords, n.length_words, Instruction.size_change hn]
  rw [hbytes] at hshows
  have hinstruction : Decode.Takes false (Decode.instruction ctx) n.words
      (n.change ctx.wordBinding) := Decode.instruction_takes n hclear
  have htakes := hinstruction r rest hshows
  rw [hchange] at htakes
  unfold Read.instruction
  cases hj : i.change ctx.rebinding with
  | error e =>
    rw [hj] at htakes
    obtain ⟨c, hc⟩ := htakes
    rw [hc]
    rfl
  | ok j =>
    rw [hj] at htakes
    obtain ⟨k', hc⟩ := htakes
    rw [hc, hsize]
    rfl

namespace Nesting

/-- What is read of a nesting: the code of the function itself, and the bodies of the functions
inside in the order of their ends. -/
def read : Context → Nesting → Except Error (Body .bound × List (RecordId × Body .bound))
  | _, done => .ok ([], [])
  | ctx, step i rest => do
    let j ← i.change ctx.rebinding
    let (code, bodies) ← rest.read ctx
    return (j :: code, bodies)
  | ctx, host i id inner rest => do
    let j ← i.change ctx.rebinding
    let f ← ctx.script.requireFunction id
    let (body, inside) ← inner.read (ctx.push f)
    let (code, bodies) ← rest.read ctx
    return (j :: code, inside ++ (id, body) :: bodies)

end Nesting

namespace Nesting

/-- Reading, where those of `seen` have been read, comes upon every function that it knows where the
nesting has it. -/
def Retraced (known : RecordId → Prop) : (RecordId → Prop) → Nesting → Prop
  | _, done => True
  | seen, step i rest =>
    (∀ id, i.spawned? = some id → known id → seen id) ∧ rest.Retraced known seen
  | seen, host i id inner rest =>
    i.spawned? = some id ∧ (known id → ¬ seen id) ∧
      inner.Retraced known (fun x => x = id ∨ seen x) ∧
      rest.Retraced known (fun x => x ∈ id :: inner.ids ∨ seen x)

variable {body? : RecordId → Option (Body .bound)} {known seen seen' : RecordId → Prop} {n : Nesting}

lemma Retraced.congr (h : n.Retraced known seen) (hs : ∀ x, known x → (seen x ↔ seen' x)) :
    n.Retraced known seen' := by
  induction n generalizing seen seen' with
  | done => trivial
  | step i rest ih =>
    exact ⟨fun id hid hknown => (hs id hknown).mp (h.1 id hid hknown), ih h.2 hs⟩
  | host i id inner rest ihi ihr =>
    obtain ⟨hspawn, hself, hinner, hrest⟩ := h
    refine ⟨hspawn, fun hknown => ?_, ihi hinner fun x hx => ?_, ihr hrest fun x hx => ?_⟩
    · rw [← hs id hknown]
      exact hself hknown
    · rw [hs x hx]
    · rw [hs x hx]

lemma Proper.retraced (h : n.Proper body? seen) (hs : ∀ x, known x → (seen x ↔ seen' x)) :
    n.Retraced known seen' := by
  refine Retraced.congr ?_ hs
  clear hs
  induction n generalizing seen with
  | done => trivial
  | step i rest ih => exact ⟨fun id hid _ => h.1 id hid, ih h.2⟩
  | host i id inner rest ihi ihr =>
    obtain ⟨hspawn, hself, -, hinner, hrest⟩ := h
    exact ⟨hspawn, fun _ => hself, ihi hinner, ihr hrest⟩

end Nesting

/-- A walk after a nesting has been read. -/
def Walk.past (walk : Walk) (n : Nesting) (bodies : List (RecordId × Body .bound)) : Walk where
  reader := walk.reader.skip n.size
  seen := ⟨(n.ids.map Part.function).reverse ++ walk.seen.parts⟩
  findings := { walk.findings with
    bodies := walk.findings.bodies ++ bodies
    inlined := n.ids.reverse ++ walk.findings.inlined }

/-- A walk after a function has been read. -/
def Walk.pastFunction (walk : Walk) (id : RecordId) (n : Nesting)
    (result : Body .bound × List (RecordId × Body .bound)) : Walk where
  reader := walk.reader.skip n.size
  seen := ⟨(n.ids.map Part.function).reverse ++ .function id :: walk.seen.parts⟩
  findings := { walk.findings with
    bodies := walk.findings.bodies ++ (result.2 ++ [(id, result.1)])
    inlined := n.ids.reverse ++ walk.findings.inlined }

lemma Walk.past_done (walk : Walk) : walk.past .done [] = walk := by
  obtain ⟨reader, seen, findings⟩ := walk
  simp only [past, Nesting.size, Nesting.ids, Reader.skip_zero, List.map_nil, List.reverse_nil,
    List.nil_append, List.append_nil]

lemma Walk.past_step (walk : Walk) (i : Instruction .bound) (n : Nesting)
    (bodies : List (RecordId × Body .bound)) :
    ({ walk with reader := walk.reader.skip i.size } : Walk).past n bodies =
      walk.past (.step i n) bodies := by
  simp only [past, Nesting.size, Nesting.ids, Reader.skip_skip]

lemma Walk.past_host (walk : Walk) (i : Instruction .bound) (id : RecordId) (inner n : Nesting)
    (result : Body .bound × List (RecordId × Body .bound)) (bodies : List (RecordId × Body .bound)) :
    (({ walk with
        reader := walk.reader.skip i.size
        findings := { walk.findings with inlined := id :: walk.findings.inlined } } :
      Walk).pastFunction id inner result).past n bodies =
      walk.past (.host i id inner n) (result.2 ++ (id, result.1) :: bodies) := by
  simp only [past, pastFunction, Nesting.size, Nesting.ids, Reader.skip_skip, List.map_cons,
    List.map_append, List.reverse_cons, List.reverse_append, List.append_assoc,
    List.cons_append, List.nil_append, Nat.add_assoc]

namespace Walking

variable {ctx : Context} {walk : Walk}

lemma offset_apply : Walking.offset walk = .ok walk.reader.offset walk := rfl

lemma isSeen_apply {part : Part} :
    isSeen part walk = .ok (decide (part ∈ walk.seen.parts)) walk := by
  change EStateM.Result.ok (walk.seen.parts.elem part) walk = _
  rw [List.elem_eq_mem]

lemma visit_apply {part : Part} (h : part ∉ walk.seen.parts) :
    visit part walk = .ok () { walk with seen := ⟨part :: walk.seen.parts⟩ } := by
  have hvisit : walk.seen.visit part = .ok ⟨part :: walk.seen.parts⟩ := by
    unfold Seen.visit Seen.contains
    rw [List.elem_eq_mem, decide_eq_false h]
    rfl
  unfold visit
  rw [bind_of_ok (rfl : (get : Walking Walk) walk = .ok walk walk), hvisit]
  rfl

lemma ofRead_settled {α : Type} (read : Read α) :
    settled (ofRead read walk) =
      settled (read walk.reader) >>= fun at' => .ok (at'.1, { walk with reader := at'.2 }) := by
  unfold ofRead
  cases read walk.reader <;> rfl

lemma instruction_settled {s : Script} {i : Instruction .bound} (h : s.Spells i)
    {rest : List UInt8} (hshows : walk.reader.Shows (s.bytesOf i ++ rest)) :
    settled (ofRead (Read.instruction ctx) walk) =
      i.change ctx.rebinding >>= fun j =>
        .ok (j, { walk with reader := walk.reader.skip i.size }) := by
  rw [ofRead_settled, Read.instruction_settled h ctx hshows]
  cases i.change ctx.rebinding <;> rfl

/-- The places of the functions that the reader knows are those of the plots. -/
def Knows (ctx : Context) (plots : List Plot) : Prop :=
  ∀ p ∈ plots, ∀ f, ctx.script.functions.get? p.id = some f →
    f.codeStart.toNat = p.start ∧ f.codeEnd.toNat = p.stop

/-- Going on from the walk, reading comes upon the functions of the nesting where it has them. -/
def Retraces (ctx : Context) (walk : Walk) (n : Nesting) : Prop :=
  n.Retraced (fun x => (ctx.script.functions.get? x).isSome)
    (fun x => .function x ∈ walk.seen.parts)

/-- A nesting that stands at `start` is read with the functions inside. -/
def ReadsNesting (s : Script) (n : Nesting) : Prop :=
  ∀ (ctx : Context) {start steps : Nat} {walk : Walk} {rest : List UInt8},
    Retraces ctx walk n → (∀ i ∈ n.allCode, s.Spells i) → (∀ i ∈ n.allCode, ctx.script.KeepsCallee i) →
    Knows ctx (n.plots start) → walk.reader.offset = ctx.codeBase + start →
    walk.reader.Shows (n.bytes s.bytesOf ++ rest) → n.size < steps →
    settled (body ctx (ctx.codeBase + start + n.size) steps walk) =
      n.read ctx >>= fun result => .ok (result.1, walk.past n result.2)

/-- What the start of a function by an instruction brings about. -/
def start (ctx : Context) (steps : Nat) (i : Instruction .bound) : Walking Unit :=
  match i.spawned? with
  | some id => spawned ctx id steps
  | none => pure ()

lemma body_step {stop steps : Nat} (h : walk.reader.offset < stop) :
    body ctx stop (steps + 1) walk = (do
      let instruction ← ofRead (Read.instruction ctx)
      start ctx steps instruction
      let rest ← body ctx stop steps
      return instruction :: rest : Walking (Body .bound)) walk := by
  rw [body, bind_of_ok offset_apply, if_pos h]
  refine congrFun (congrArg (ofRead (Read.instruction ctx) >>= ·) (funext fun i => ?_)) walk
  unfold start
  cases i.spawned? <;> rfl

lemma body_end {stop steps : Nat} (h : walk.reader.offset = stop) :
    body ctx stop (steps + 1) walk = .ok [] walk := by
  rw [body, bind_of_ok offset_apply, if_neg (by omega), if_pos h]
  rfl

lemma readsNesting_done (s : Script) : ReadsNesting s .done := by
  intro ctx start steps walk rest _ _ _ _ hpos _ hsteps
  obtain ⟨m, rfl⟩ : ∃ m, steps = m + 1 := ⟨steps - 1, by omega⟩
  have hend : walk.reader.offset = ctx.codeBase + start + Nesting.done.size := hpos
  rw [body_end hend]
  exact congrArg (fun walk => Except.ok (([] : Body .bound), walk)) walk.past_done.symm

lemma spawned_of_mem {id : RecordId} {steps : Nat} (h : .function id ∈ walk.seen.parts) :
    spawned ctx id (steps + 1) walk = .ok () walk := by
  rw [spawned, bind_of_ok isSeen_apply, if_pos (decide_eq_true h)]
  rfl

lemma rest_settled {s : Script} {n : Nesting} (h : ReadsNesting s n) {start stop steps : Nat}
    {rest : List UInt8} (hretraces : Retraces ctx walk n) (hspells : ∀ i ∈ n.allCode, s.Spells i)
    (hcallees : ∀ i ∈ n.allCode, ctx.script.KeepsCallee i) (hknows : Knows ctx (n.plots start))
    (hpos : walk.reader.offset = ctx.codeBase + start)
    (hshows : walk.reader.Shows (n.bytes s.bytesOf ++ rest)) (hsteps : n.size < steps)
    (hstop : stop = ctx.codeBase + start + n.size) (i : Instruction .bound) :
    settled ((body ctx stop steps >>= fun rest => pure (i :: rest)) walk) =
      n.read ctx >>= fun result => .ok (i :: result.1, walk.past n result.2) := by
  rw [settled_bind, hstop, h ctx hretraces hspells hcallees hknows hpos hshows hsteps]
  cases n.read ctx <;> rfl

lemma readsNesting_step {s : Script} {n : Nesting} (i : Instruction .bound)
    (h : ReadsNesting s n) : ReadsNesting s (.step i n) := by
  intro ctx start steps walk rest hretraces hspells hcallees hknows hpos hshows hsteps
  have hsize := i.size_pos
  rw [Nesting.size] at hsteps
  obtain ⟨m, rfl⟩ : ∃ m, steps = m + 2 := ⟨steps - 2, by omega⟩
  rw [Nesting.allCode, List.forall_mem_cons] at hspells hcallees
  rw [Nesting.bytes, List.append_assoc] at hshows
  have hlt : walk.reader.offset < ctx.codeBase + start + (Nesting.step i n).size := by
    rw [hpos, Nesting.size]
    omega
  rw [body_step hlt, settled_bind, instruction_settled hspells.1 hshows, Nesting.read]
  cases hj : i.change ctx.rebinding with
  | error e => rfl
  | ok j =>
    let next : Walk := { walk with reader := walk.reader.skip i.size }
    have hstart : Walking.start ctx (m + 1) j next = .ok () next := by
      unfold Walking.start
      rw [hcallees.1.spawned?_eq hj]
      cases hid : i.spawned? with
      | none => rfl
      | some id =>
        exact spawned_of_mem (hretraces.1 id hid (hcallees.1.isSome_of_spawned? hj hid))
    have hnext : next.reader.offset = ctx.codeBase + (start + i.size) := by
      rw [← Nat.add_assoc, ← hpos]
      rfl
    have hretraced : Retraces ctx next n := hretraces.2
    change settled ((Walking.start ctx (m + 1) j >>= fun _ =>
      body ctx _ (m + 1) >>= fun rest => pure (j :: rest)) next) =
      (n.read ctx >>= fun result => pure (j :: result.1, result.2)) >>= _
    rw [bind_of_ok hstart, rest_settled h hretraced hspells.2 hcallees.2 hknows hnext
      (hspells.1.encodes.length_bytesOf ▸ hshows.skip) (by omega) (by rw [Nesting.size]; omega) j]
    cases n.read ctx with
    | error e => rfl
    | ok result =>
      exact congrArg (fun walk => Except.ok (j :: result.1, walk)) (walk.past_step i n result.2)

lemma function_settled {s : Script} {n : Nesting} (h : ReadsNesting s n) {f : Function}
    {start steps : Nat} {rest : List UInt8} (hnew : .function f.id ∉ walk.seen.parts)
    (hretraces : Retraces ctx { walk with seen := ⟨.function f.id :: walk.seen.parts⟩ } n)
    (hspells : ∀ i ∈ n.allCode, s.Spells i) (hcallees : ∀ i ∈ n.allCode, ctx.script.KeepsCallee i)
    (hknows : Knows ctx (n.plots start)) (hstop : f.codeEnd.toNat = start + n.size)
    (hpos : walk.reader.offset = ctx.codeBase + start)
    (hshows : walk.reader.Shows (n.bytes s.bytesOf ++ rest)) (hsteps : n.size + 1 < steps) :
    settled (function ctx f steps walk) =
      n.read (ctx.push f) >>= fun result => .ok ((), walk.pastFunction f.id n result) := by
  obtain ⟨m, rfl⟩ : ∃ m, steps = m + 1 := ⟨steps - 1, by omega⟩
  let entered : Walk := { walk with seen := ⟨.function f.id :: walk.seen.parts⟩ }
  have hentered : Retraces (ctx.push f) entered n := hretraces
  have hlong : n.size < m := by omega
  have hbody := h (ctx.push f) hentered hspells hcallees hknows hpos hshows hlong
  have hend : ctx.codeBase + f.codeEnd.toNat = ctx.codeBase + start + n.size := by omega
  have hplace : ¬ ctx.codeBase + start + n.size < entered.reader.offset := by
    change ¬ _ < walk.reader.offset
    omega
  rw [function, bind_of_ok (visit_apply hnew), bind_of_ok offset_apply]
  dsimp only
  rw [hend, if_neg hplace, settled_bind]
  change settled (body (ctx.push f) (ctx.codeBase + start + n.size) m entered) >>= _ = _
  refine (congrArg (· >>= _) hbody).trans ?_
  cases n.read (ctx.push f) with
  | error e => rfl
  | ok result =>
    refine congrArg (fun walk => Except.ok ((), walk)) ?_
    simp only [Walk.past, Walk.pastFunction, entered, List.append_assoc]

/-- A function that has not been read is read where it is started. -/
lemma spawned_settled {s : Script} {n : Nesting} (h : ReadsNesting s n) {id : RecordId}
    {start steps : Nat} {rest : List UInt8} (hnew : .function id ∉ walk.seen.parts)
    (hretraces : Retraces ctx { walk with seen := ⟨.function id :: walk.seen.parts⟩ } n)
    (hspells : ∀ i ∈ n.allCode, s.Spells i) (hcallees : ∀ i ∈ n.allCode, ctx.script.KeepsCallee i)
    (hknows : Knows ctx (⟨id, start, n, true⟩ :: n.plots start))
    (hpos : walk.reader.offset = ctx.codeBase + start)
    (hshows : walk.reader.Shows (n.bytes s.bytesOf ++ rest)) (hsteps : n.size + 2 < steps) :
    settled (spawned ctx id steps walk) = (do
      let f ← ctx.script.requireFunction id
      let result ← n.read (ctx.push f)
      let noted : Walk := { walk with
        findings := { walk.findings with inlined := id :: walk.findings.inlined } }
      .ok ((), noted.pastFunction id n result)) := by
  obtain ⟨m, rfl⟩ : ∃ m, steps = m + 1 := ⟨steps - 1, by omega⟩
  rw [spawned, bind_of_ok isSeen_apply, if_neg fun hmem => hnew (of_decide_eq_true hmem)]
  unfold Script.requireFunction
  cases hf : ctx.script.functions.get? id with
  | none => rfl
  | some f =>
    obtain ⟨hplace, hinside⟩ := List.forall_mem_cons.mp hknows
    obtain ⟨hstart, hstop⟩ := hplace f hf
    have hid : f.id = id := Registry.id_of_get? hf
    have hdeclared : walk.reader.offset = ctx.codeBase + f.codeStart.toNat := by rw [hpos, hstart]
    let noted : Walk := { walk with
      findings := { walk.findings with inlined := id :: walk.findings.inlined } }
    change settled ((if walk.reader.offset ≠ ctx.codeBase + f.codeStart.toNat then _ else _ :
      Walking Unit) walk) = _
    rw [if_neg (not_not.mpr hdeclared)]
    change settled (function ctx f m noted) = _
    subst hid
    exact function_settled h hnew hretraces hspells hcallees hinside hstop hpos hshows (by omega)

lemma readsNesting_host {s : Script} {inner n : Nesting} (i : Instruction .bound) (id : RecordId)
    (hi : ReadsNesting s inner) (h : ReadsNesting s n) : ReadsNesting s (.host i id inner n) := by
  intro ctx start steps walk rest hretraces hspells hcallees hknows hpos hshows hsteps
  have hsize : 4 ≤ i.size := Nat.le_add_right 4 _
  have hlt : walk.reader.offset < ctx.codeBase + start + (Nesting.host i id inner n).size := by
    rw [hpos, Nesting.size]
    omega
  rw [Nesting.size] at hsteps
  obtain ⟨m, rfl⟩ : ∃ m, steps = m + 1 := ⟨steps - 1, by omega⟩
  rw [Nesting.allCode, List.forall_mem_cons, List.forall_mem_append] at hspells hcallees
  rw [Nesting.bytes, List.append_assoc, List.append_assoc] at hshows
  obtain ⟨hspawn, hself, hinner, hmore⟩ := hretraces
  -- Binding the instruction, finding the function, reading its code and reading on fail in this order.
  rw [body_step hlt, settled_bind, instruction_settled hspells.1 hshows, Nesting.read]
  cases hj : i.change ctx.rebinding with
  | error e => rfl
  | ok j =>
    let next : Walk := { walk with reader := walk.reader.skip i.size }
    have hnext : next.reader.offset = ctx.codeBase + (start + i.size) := by
      rw [← Nat.add_assoc, ← hpos]
      rfl
    have hplots := List.forall_mem_append.mp (List.forall_mem_cons.mp hknows).2
    have hfollow : next.reader.Shows (inner.bytes s.bytesOf ++ (n.bytes s.bytesOf ++ rest)) := by
      have := hshows.skip
      rwa [hspells.1.encodes.length_bytesOf] at this
    have hnew := hself (hcallees.1.isSome_of_spawned? hj hspawn)
    have hentered : Retraces ctx { next with seen := ⟨.function id :: next.seen.parts⟩ } inner :=
      hinner.congr fun x _ => by simp [next]
    have hspawned : settled (spawned ctx id m next) = _ :=
      spawned_settled hi hnew hentered hspells.2.1 hcallees.2.1
        (List.forall_mem_cons.mpr ⟨(List.forall_mem_cons.mp hknows).1, hplots.1⟩) hnext hfollow
        (by omega)
    have hstart : Walking.start ctx m j = spawned ctx id m := by
      unfold Walking.start
      rw [hcallees.1.spawned?_eq hj, hspawn]
    change settled ((Walking.start ctx m j >>= fun _ =>
      body ctx _ m >>= fun rest => pure (j :: rest)) next) = _
    rw [hstart, settled_bind, hspawned]
    cases hf : ctx.script.requireFunction id with
    | error e => rfl
    | ok f =>
    simp only [ok_bind]
    cases hread : inner.read (ctx.push f) with
    | error e => rfl
    | ok result =>
      let noted : Walk := { next with
        findings := { next.findings with inlined := id :: next.findings.inlined } }
      let read : Walk := noted.pastFunction id inner result
      have hpast : read.reader.offset = ctx.codeBase + (start + i.size + inner.size) := by
        rw [← Nat.add_assoc, ← hnext]
        rfl
      have hremain : read.reader.Shows (n.bytes s.bytesOf ++ rest) := by
        have := hfollow.skip
        rwa [Nesting.length_bytes fun i hi => (hspells.2.1 i hi).encodes] at this
      have hretraced : Retraces ctx read n := hmore.congr fun x _ => by
        simp [read, noted, next, Walk.pastFunction]
        tauto
      change settled ((body ctx _ m >>= fun rest => pure (j :: rest)) read) = _
      rw [rest_settled h hretraced hspells.2.2 hcallees.2.2 hplots.2 hpast hremain (by omega)
        (by rw [Nesting.size]; omega) j]
      cases n.read ctx with
      | error e => rfl
      | ok more =>
        refine congrArg (fun walk => Except.ok (j :: more.1, walk)) ?_
        exact walk.past_host i id inner n result more.2

/-- Code is read as it was written, with its references looked up. -/
theorem readsNesting (s : Script) (n : Nesting) : ReadsNesting s n := by
  induction n with
  | done => exact readsNesting_done s
  | step i rest ih => exact readsNesting_step i ih
  | host i id inner rest ihi ihr => exact readsNesting_host i id ihi ihr

end Walking

end ScriptContainer
