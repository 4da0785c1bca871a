import ScriptContainer.Proofs.ReadingCode
import ScriptContainer.Proofs.RecordReads
import ScriptContainer.Proofs.Rows

/-!
# Reading the code region back

The schedule of the functions that a container declares leaves out code that none of them has.
Such code waits until the next part is due and is then read into a function of its own, or, if no
part follows, is taken for filler words. Declared functions are read as their code is.
-/

namespace ScriptContainer

lemma of_settled_ok {ε σ α : Type} {run : EStateM.Result ε σ α} {a : α} {t : σ}
    (h : settled run = .ok (a, t)) : run = .ok a t := by
  cases run with
  | ok a' t' =>
    obtain ⟨rfl, rfl⟩ := Prod.mk.inj (Except.ok.inj h)
    rfl
  | error e t' => cases h

lemma of_settled_error {ε σ α : Type} {run : EStateM.Result ε σ α} {e : ε}
    (h : settled run = .error e) : ∃ t, run = .error e t := by
  cases run with
  | ok a' t' => cases h
  | error e' t' =>
    obtain rfl := Except.error.inj h
    exact ⟨t', rfl⟩

namespace Nesting

lemma read_append (ctx : Context) (n more : Nesting) :
    (n.append more).read ctx = do
      let first ← n.read ctx
      let second ← more.read ctx
      return (first.1 ++ second.1, first.2 ++ second.2) := by
  induction n with
  | done =>
    rw [append, read]
    simp only [ok_bind, List.nil_append]
    exact (bind_pure _).symm
  | step i rest ih =>
    simp only [append, read, ih, bind_assoc, pure_bind, List.cons_append]
  | host i id inner rest _ ih =>
    simp only [append, read, ih, bind_assoc, pure_bind, List.cons_append, List.append_assoc]

variable {known seen : RecordId → Prop}

lemma Retraced.append {n more : Nesting} (hn : n.Retraced known seen)
    (hm : more.Retraced known fun x => x ∈ n.ids ∨ seen x) : (n.append more).Retraced known seen := by
  induction n generalizing seen with
  | done => exact hm.congr fun x _ => by simp [ids]
  | step i rest ih => exact ⟨hn.1, ih hn.2 hm⟩
  | host i id inner rest _ ih =>
    obtain ⟨hspawn, hself, hinner, hrest⟩ := hn
    refine ⟨hspawn, hself, hinner, ih hrest (hm.congr fun x _ => ?_)⟩
    simp only [ids, List.mem_cons, List.mem_append]
    tauto

end Nesting

/-- Where a function made of the code before a part belongs. -/
def Placement.before : Part → Placement
  | .function id => .after id
  | .table _ => .front

namespace Walking

/-- Code that none of the functions has which the reader knows, and which waits to be read. -/
structure Waits (s : Script) (ctx : Context) (walk : Walk) (n : Nesting) : Prop where
  flat : n.ids = []
  reads : n.read ctx = .ok (n.code, [])
  spells : ∀ i ∈ n.allCode, s.Spells i
  callees : ∀ i ∈ n.allCode, ctx.script.KeepsCallee i
  retraces : Retraces ctx walk n

/-- What the row before a part brings about: it is read into a function with the next free id. -/
structure Fills (id : RecordId) (walk : Walk) (row : Row) (id' : RecordId) (walk' : Walk)
    (new : List (Placement × Function)) : Prop where
  gaps : Gaps id [row] new id'
  walk : walk' = { walk with
    reader := walk.reader.skip row.nesting.size
    findings := { walk.findings with gaps := walk.findings.gaps ++ new } }

variable {s : Script} {ctx : Context} {walk : Walk} {n : Nesting} {row : Row}

/-- Read the code before a part, if there is any. -/
def before (ctx : Context) (nextId : RecordId) (start : Nat) (part : Part) : Walking RecordId := do
  let here ← offset
  if here < start then do
    gap ctx nextId start part
    pure (nextId + 1)
  else if start < here then malformed here (.insideCode part start)
  else pure nextId

lemma plots_of_flat (h : n.ids = []) (start : Nat) : n.plots start = [] := by
  have := n.map_id_plots start
  rw [h] at this
  exact List.map_eq_nil_iff.mp this

lemma Waits.past_eq (h : Waits s ctx walk n) :
    walk.past n [] = { walk with reader := walk.reader.skip n.size } := by
  simp only [Walk.past, h.flat, List.map_nil, List.reverse_nil, List.nil_append, List.append_nil]

lemma before_apply (h : Waits s ctx walk row.nesting) {rest : List UInt8}
    (hpos : walk.reader.offset = ctx.codeBase + row.start)
    (hshows : walk.reader.Shows (row.nesting.bytes s.bytesOf ++ rest)) (nextId : RecordId)
    (part : Part) :
    ∃ id' walk' new, Fills nextId walk row id' walk' new ∧
      before ctx nextId (ctx.codeBase + row.stop) part walk = .ok id' walk' := by
  by_cases hsize : row.nesting.size = 0
  · have hwalk : walk = { walk with
        reader := walk.reader.skip row.nesting.size
        findings := { walk.findings with gaps := walk.findings.gaps ++ [] } } := by
      rw [hsize, List.append_nil, Reader.skip_zero]
    refine ⟨nextId, walk, [], ⟨.empty hsize .nil, hwalk⟩, ?_⟩
    unfold before
    rw [bind_of_ok offset_apply, Row.stop, if_neg (by omega), if_neg (by omega)]
    rfl
  · have hlength := hshows.length_eq
    rw [List.length_append, Nesting.length_bytes fun i hi => (h.spells i hi).encodes] at hlength
    have hsteps : row.nesting.size < walk.reader.remaining + 2 := by
      unfold Reader.remaining
      omega
    have hbody := readsNesting s row.nesting ctx h.retraces h.spells h.callees
      (fun p hp => absurd hp (by rw [plots_of_flat h.flat]; exact List.not_mem_nil)) hpos hshows hsteps
    rw [h.reads, ok_bind, h.past_eq, Nat.add_assoc, ← Row.stop] at hbody
    have hbody := of_settled_ok hbody
    have hfunction : { Function.new nextId with
        isDeclared := false
        codeStart := UInt32.ofNat (walk.reader.offset - ctx.codeBase)
        codeEnd := UInt32.ofNat (ctx.codeBase + row.stop - ctx.codeBase)
        code := row.nesting.code } = row.function nextId := by
      rw [hpos, Nat.add_sub_cancel_left, Nat.add_sub_cancel_left]
      rfl
    refine ⟨nextId + 1, _, [(.before part, row.function nextId)], ⟨.gap hsize .nil, rfl⟩, ?_⟩
    unfold before
    rw [bind_of_ok offset_apply, if_pos (by rw [Row.stop]; omega)]
    have hrun : gap ctx nextId (ctx.codeBase + row.stop) part walk = .ok () { walk with
        reader := walk.reader.skip row.nesting.size
        findings := { walk.findings with
          gaps := walk.findings.gaps ++ [(.before part, row.function nextId)] } } := by
      rw [← hfunction]
      unfold gap
      rw [bind_of_ok offset_apply,
        bind_of_ok (rfl : enoughSteps walk = .ok (walk.reader.remaining + 2) walk),
        bind_of_ok hbody]
      rfl
    rw [bind_of_ok hrun]
    rfl

lemma part_of_mem {scheduled : Scheduled} {nextId : RecordId}
    (h : scheduled.part ∈ walk.seen.parts) : part ctx nextId scheduled walk = .ok nextId walk := by
  unfold part
  rw [bind_of_ok isSeen_apply, if_pos (decide_eq_true h)]
  rfl

lemma part_function {start stop : Nat} {id nextId : RecordId} (h : .function id ∉ walk.seen.parts) :
    part ctx nextId ⟨start, stop, .function id⟩ walk = (do
      let nextId ← before ctx nextId (ctx.codeBase + start) (.function id)
      let f ← ofExcept (ctx.script.requireFunction id)
      function ctx f (← enoughSteps)
      return nextId : Walking RecordId) walk := by
  unfold part before
  rw [bind_of_ok isSeen_apply, if_neg fun hmem => h (of_decide_eq_true hmem), bind_assoc,
    bind_of_ok offset_apply, bind_of_ok offset_apply]
  split
  · rw [bind_assoc]
  · split <;> rfl

lemma root_reads (h : Waits s ctx walk row.nesting) {root : Root} {f : Function} {rest : List UInt8}
    (hf : ctx.script.functions.get? root.id = some f)
    (hnew : .function root.id ∉ walk.seen.parts)
    (hretraces : Retraces ctx { walk with seen := ⟨.function root.id :: walk.seen.parts⟩ } root.nesting)
    (hspells : ∀ i ∈ root.nesting.allCode, s.Spells i)
    (hcallees : ∀ i ∈ root.nesting.allCode, ctx.script.KeepsCallee i)
    (hknows : Knows ctx (root.plots row.stop))
    (hpos : walk.reader.offset = ctx.codeBase + row.start)
    (hshows : walk.reader.Shows (row.nesting.bytes s.bytesOf ++ (root.nesting.bytes s.bytesOf ++ rest)))
    (nextId : RecordId) :
    ∃ id' walk' new, Fills nextId walk row id' walk' new ∧
      settled (part ctx nextId (root.plot row.stop).scheduled walk) =
        root.nesting.read (ctx.push f) >>= fun result =>
          .ok (id', walk'.pastFunction root.id root.nesting result) := by
  obtain ⟨id', walk', new, hfills, hbefore⟩ :=
    before_apply h hpos hshows nextId (.function root.id)
  refine ⟨id', walk', new, hfills, ?_⟩
  have hreader : walk'.reader = walk.reader.skip row.nesting.size := by rw [hfills.walk]
  have hseen : walk'.seen = walk.seen := by rw [hfills.walk]
  obtain ⟨hself, hinside⟩ := List.forall_mem_cons.mp hknows
  have hid : f.id = root.id := Registry.id_of_get? hf
  have hrequire : ctx.script.requireFunction root.id = .ok f := Script.requireFunction_of_get? hf
  have hpast := hshows.skip
  rw [Nesting.length_bytes fun i hi => (h.spells i hi).encodes, ← hreader] at hpast
  have hlength := hpast.length_eq
  rw [List.length_append, Nesting.length_bytes fun i hi => (hspells i hi).encodes] at hlength
  have hsteps : root.nesting.size + 1 < walk'.reader.remaining + 2 := by
    unfold Reader.remaining
    omega
  have hplace : walk'.reader.offset = ctx.codeBase + row.stop := by
    rw [hreader, Row.stop, ← Nat.add_assoc, ← hpos]
    rfl
  have hfunction : settled (function ctx f (walk'.reader.remaining + 2) walk') =
      root.nesting.read (ctx.push f) >>= fun result =>
        .ok ((), walk'.pastFunction f.id root.nesting result) :=
    function_settled (readsNesting s root.nesting) (by rwa [hid, hseen]) (by rwa [hid, hseen])
      hspells hcallees hinside (hself f hf).2 hplace hpast hsteps
  have hscheduled : (root.plot row.stop).scheduled =
      ⟨row.stop, (root.plot row.stop).stop, .function root.id⟩ := rfl
  rw [hscheduled, part_function hnew, bind_of_ok hbefore, hrequire]
  change settled ((function ctx f (walk'.reader.remaining + 2) >>= fun _ => pure id') walk') = _
  rw [settled_bind, hfunction, hid]
  cases root.nesting.read (ctx.push f) <;> rfl

lemma waits_done : Waits s ctx walk .done :=
  ⟨rfl, rfl, (fun _ h => by cases h), (fun _ h => by cases h), trivial⟩

/-- A root that the reader does not know holds no functions, and its code can be read outside all
functions. -/
structure Readable (s : Script) (ctx : Context) (root : Root) : Prop where
  spells : ∀ i ∈ root.nesting.allCode, s.Spells i
  callees : ∀ i ∈ root.nesting.allCode, ctx.script.KeepsCallee i
  hidden : ctx.script.functions.get? root.id = none →
    root.nesting.ids = [] ∧ root.nesting.read ctx = .ok (root.nesting.code, [])

/-- Reading goes on at `start`, behind a row that waits, and has come upon the functions of `seen`. -/
structure Ready (s : Script) (ctx : Context) (seen : RecordId → Prop) (start : Nat) (walk : Walk)
    (row : Row) (rest : List UInt8) : Prop where
  waits : Waits s ctx walk row.nesting
  place : walk.reader.offset = ctx.codeBase + row.start
  stop : row.stop = start
  shows : walk.reader.Shows (row.nesting.bytes s.bytesOf ++ rest)
  seen : ∀ x, (ctx.script.functions.get? x).isSome → (seen x ↔ .function x ∈ walk.seen.parts)
  tables : ∀ ref, .table ref ∉ walk.seen.parts

/-- What is read of roots that follow each other: the bodies of the functions that the reader knows,
in the order of their ends. -/
def forestRead (ctx : Context) : List Root → Except Error (List (RecordId × Body .bound))
  | [] => .ok []
  | root :: roots =>
    match ctx.script.functions.get? root.id with
    | none => forestRead ctx roots
    | some f => do
      let result ← root.nesting.read (ctx.push f)
      let bodies ← forestRead ctx roots
      return result.2 ++ (root.id, result.1) :: bodies

/-- Whether the reader knows a function of this id. -/
def holds (ctx : Context) (id : RecordId) : Bool := (ctx.script.functions.get? id).isSome

/-- The findings after bodies and functions of other code have been added. -/
structure Advances (walk walk' : Walk) (bodies : List (RecordId × Body .bound)) (inside : List RecordId)
    (new : List (Placement × Function)) : Prop where
  bodies : walk'.findings.bodies = walk.findings.bodies ++ bodies
  inlined : ∀ x, x ∈ walk'.findings.inlined ↔ x ∈ inside ∨ x ∈ walk.findings.inlined
  gaps : walk'.findings.gaps = walk.findings.gaps ++ new
  tables : walk'.findings.tables = walk.findings.tables

/-- The functions in a schedule that the reader knows, and the tables. -/
def known (ctx : Context) (scheduled : Scheduled) : Bool :=
  match scheduled.part with
  | .function id => holds ctx id
  | .table _ => true

lemma Ready.hide {seen : RecordId → Prop} {start : Nat} {root : Root} {rest : List UInt8}
    {body? : RecordId → Option (Body .bound)} (hr : Readable s ctx root)
    (hhidden : ctx.script.functions.get? root.id = none)
    (hproper : root.nesting.Proper body? fun x => x = root.id ∨ seen x)
    (h : Ready s ctx seen start walk row (root.nesting.bytes s.bytesOf ++ rest)) :
    Ready s ctx (fun x => x ∈ root.ids ∨ seen x) (start + root.nesting.size) walk (row.add root)
      rest := by
  obtain ⟨hflat, hcode⟩ := hr.hidden hhidden
  obtain ⟨hw, hplace, hstop, hshows, hseen, htables⟩ := h
  have hids : root.ids = [root.id] := by rw [Root.ids, hflat]
  have hne : ∀ x, (ctx.script.functions.get? x).isSome → x ≠ root.id := by
    rintro x hx rfl
    rw [hhidden] at hx
    cases hx
  have hagree : ∀ x, (ctx.script.functions.get? x).isSome →
      (x = root.id ∨ seen x ↔ x ∈ row.nesting.ids ∨ .function x ∈ walk.seen.parts) := by
    intro x hx
    rw [hw.flat, ← hseen x hx]
    simp [hne x hx]
  have hnesting := row.nesting_add root
  refine ⟨⟨?_, ?_, ?_, ?_, ?_⟩, hplace, ?_, ?_, fun x hx => ?_, htables⟩
  · rw [hnesting, Nesting.ids_append, hw.flat, hflat]
    rfl
  · rw [hnesting, Nesting.read_append, hw.reads, hcode, Nesting.code_append]
    rfl
  · rw [hnesting, Nesting.allCode_append, List.forall_mem_append]
    exact ⟨hw.spells, hr.spells⟩
  · rw [hnesting, Nesting.allCode_append, List.forall_mem_append]
    exact ⟨hw.callees, hr.callees⟩
  · rw [hnesting]
    exact hw.retraces.append (hproper.retraced hagree)
  · rw [Row.stop_add, hstop]
  · rwa [hnesting, Nesting.bytes_append, List.append_assoc]
  · rw [hids, List.mem_singleton, ← hseen x hx]
    simp [hne x hx]

/-- Reading has come behind roots that follow each other, whose bodies are `bodies`. -/
structure Arrives (s : Script) (ctx : Context) (seen : RecordId → Prop) (start : Nat)
    (roots : List Root) (rest : List UInt8) (nextId : RecordId) (walk : Walk) (row : Row)
    (bodies : List (RecordId × Body .bound)) (id' : RecordId) (walk' : Walk)
    (new : List (Placement × Function)) : Prop where
  ready : Ready s ctx (fun x => x ∈ forestIds roots ∨ seen x) (start + forestSize roots) walk'
    (rows (holds ctx) start row roots).2 rest
  advances : Advances walk walk' bodies (roots.flatMap fun root => root.nesting.ids) new
  gaps : Gaps nextId (rows (holds ctx) start row roots).1 new id'

/-- How reading of roots goes: it fails where one of them cannot be read, and otherwise arrives behind
them and goes on. -/
def RunsOver (s : Script) (ctx : Context) (seen : RecordId → Prop) (start : Nat) (roots : List Root)
    (rest : List UInt8) (nextId : RecordId) (walk : Walk) (row : Row)
    (run : EStateM.Result Error Walk RecordId)
    (onward : RecordId → Walk → EStateM.Result Error Walk RecordId) : Prop :=
  match forestRead ctx roots with
  | .error e => ∃ walk', run = .error e walk'
  | .ok bodies => ∃ id' walk' new,
    Arrives s ctx seen start roots rest nextId walk row bodies id' walk' new ∧ run = onward id' walk'

variable {seen seen' : RecordId → Prop} {start : Nat} {roots : List Root}
  {rest : List UInt8} {nextId : RecordId} {run : EStateM.Result Error Walk RecordId}
  {onward : RecordId → Walk → EStateM.Result Error Walk RecordId}

lemma Ready.congr (h : Ready s ctx seen start walk row rest) (hs : ∀ x, seen x ↔ seen' x) :
    Ready s ctx seen' start walk row rest := by
  have : seen = seen' := funext fun x => propext (hs x)
  rwa [← this]

lemma RunsOver.nil (hready : Ready s ctx seen start walk row rest) (hrun : run = onward nextId walk) :
    RunsOver s ctx seen start [] rest nextId walk row run onward := by
  refine ⟨nextId, walk, [], ⟨?_, ⟨?_, fun x => ?_, ?_, rfl⟩, .nil⟩, hrun⟩
  · exact hready.congr fun x => by simp [forestIds]
  · rw [List.append_nil]
  · simp
  · rw [List.append_nil]

lemma RunsOver.hidden {root : Root} (hr : Readable s ctx root)
    (hhidden : ctx.script.functions.get? root.id = none)
    (h : RunsOver s ctx (fun x => x ∈ root.ids ∨ seen x) (start + root.nesting.size) roots rest
      nextId walk (row.add root) run onward) :
    RunsOver s ctx seen start (root :: roots) rest nextId walk row run onward := by
  have hread : forestRead ctx (root :: roots) = forestRead ctx roots := by
    rw [forestRead, hhidden]
  have hrows : rows (holds ctx) start row (root :: roots) =
      rows (holds ctx) (start + root.nesting.size) (row.add root) roots := by
    rw [rows, holds, hhidden]
    rfl
  unfold RunsOver at h ⊢
  rw [hread]
  cases hbodies : forestRead ctx roots with
  | error e =>
    rw [hbodies] at h
    exact h
  | ok bodies =>
    rw [hbodies] at h
    obtain ⟨id', walk', new, ⟨hready, hadvances, hgaps⟩, hrun⟩ := h
    refine ⟨id', walk', new, ⟨?_, ?_, ?_⟩, hrun⟩
    · rw [forestSize_cons, ← Nat.add_assoc, hrows]
      exact hready.congr fun x => by rw [forestIds_cons, List.mem_append]; tauto
    · rw [List.flatMap_cons, (hr.hidden hhidden).1]
      exact hadvances
    · rw [hrows]
      exact hgaps

/-- Once a root has been read after the row that waits, the row behind it is empty. -/
lemma Ready.past {root : Root} {id' : RecordId} {walk' : Walk} {new : List (Placement × Function)}
    (h : Ready s ctx seen row.stop walk row (root.nesting.bytes s.bytesOf ++ rest))
    (hr : Readable s ctx root) (hfills : Fills nextId walk row id' walk' new)
    (result : Body .bound × List (RecordId × Body .bound)) :
    Ready s ctx (fun x => x ∈ root.ids ∨ seen x) (row.stop + root.nesting.size)
      (walk'.pastFunction root.id root.nesting result) ⟨row.stop + root.nesting.size, []⟩ rest := by
  obtain ⟨hw, hpos, -, hshows, hseen, htables⟩ := h
  refine ⟨waits_done, ?_, rfl, ?_, fun x hx => ?_, fun ref hmem => ?_⟩
  · simp only [Walk.pastFunction, hfills.walk, Reader.skip, hpos, Row.stop, Nat.add_assoc]
  · have hleft := hshows.skip.skip
    rw [Nesting.length_bytes fun i hi => (hw.spells i hi).encodes,
      Nesting.length_bytes fun i hi => (hr.spells i hi).encodes] at hleft
    simp only [Walk.pastFunction, hfills.walk]
    exact hleft
  · simp only [Walk.pastFunction, hfills.walk, List.mem_append, List.mem_reverse, List.mem_map,
      List.mem_cons, Part.function.injEq, exists_eq_right, Root.ids, hseen x hx]
    tauto
  · simp only [Walk.pastFunction, hfills.walk, List.mem_append, List.mem_reverse, List.mem_map,
      List.mem_cons, reduceCtorEq, and_false, exists_false, false_or] at hmem
    exact htables ref hmem

lemma Advances.past {root : Root} {id' : RecordId} {walk' walk'' : Walk}
    {new more : List (Placement × Function)} {result : Body .bound × List (RecordId × Body .bound)}
    {bodies : List (RecordId × Body .bound)} {inside : List RecordId}
    (h : Advances (walk'.pastFunction root.id root.nesting result) walk'' bodies inside more)
    (hfills : Fills nextId walk row id' walk' new) :
    Advances walk walk'' (result.2 ++ (root.id, result.1) :: bodies) (root.nesting.ids ++ inside)
      (new ++ more) := by
  obtain ⟨hbodies, hinlined, hgaps, htables⟩ := h
  refine ⟨?_, fun x => ?_, ?_, ?_⟩
  · rw [hbodies]
    simp only [Walk.pastFunction, hfills.walk, List.append_assoc, List.cons_append,
      List.nil_append]
  · rw [hinlined, List.mem_append]
    simp only [Walk.pastFunction, hfills.walk, List.mem_append, List.mem_reverse]
    tauto
  · rw [hgaps]
    simp only [Walk.pastFunction, hfills.walk, List.append_assoc]
  · rw [htables]
    simp only [Walk.pastFunction, hfills.walk]

lemma RunsOver.shown {root : Root} {f : Function} {body? : RecordId → Option (Body .bound)}
    {next : RecordId → Walking RecordId} (hr : Readable s ctx root)
    (hf : ctx.script.functions.get? root.id = some f) (hnew : ¬ seen root.id)
    (hproper : root.nesting.Proper body? fun x => x = root.id ∨ seen x)
    (hknows : Knows ctx (root.plots start))
    (hready : Ready s ctx seen start walk row
      (root.nesting.bytes s.bytesOf ++ (forestBytes s.bytesOf roots ++ rest)))
    (h : ∀ id' walk', Ready s ctx (fun x => x ∈ root.ids ∨ seen x) (start + root.nesting.size)
      walk' ⟨start + root.nesting.size, []⟩ (forestBytes s.bytesOf roots ++ rest) →
      RunsOver s ctx (fun x => x ∈ root.ids ∨ seen x) (start + root.nesting.size) roots rest
        id' walk' ⟨start + root.nesting.size, []⟩ (next id' walk') onward) :
    RunsOver s ctx seen start (root :: roots) rest nextId walk row
      ((part ctx nextId (root.plot start).scheduled >>= next) walk) onward := by
  obtain rfl := hready.stop
  have hisSome : (ctx.script.functions.get? root.id).isSome := by rw [hf]; rfl
  have hunread : .function root.id ∉ walk.seen.parts := fun hmem =>
    hnew ((hready.seen root.id hisSome).mpr hmem)
  have hretraces : Retraces ctx { walk with seen := ⟨.function root.id :: walk.seen.parts⟩ }
      root.nesting := hproper.retraced fun x hx => by simp [hready.seen x hx]
  obtain ⟨id', walk', new, hfills, hpart⟩ := root_reads hready.waits hf hunread hretraces hr.spells
    hr.callees hknows hready.place hready.shows nextId
  have hread : forestRead ctx (root :: roots) = (do
      let result ← root.nesting.read (ctx.push f)
      let bodies ← forestRead ctx roots
      return result.2 ++ (root.id, result.1) :: bodies) := by
    rw [forestRead, hf]
  unfold RunsOver
  rw [hread]
  cases hresult : root.nesting.read (ctx.push f) with
  | error e =>
    rw [hresult] at hpart
    obtain ⟨w, hw⟩ := of_settled_error hpart
    exact ⟨w, bind_of_error hw⟩
  | ok result =>
    rw [hresult] at hpart
    have hpart := of_settled_ok hpart
    have hnext := h id' _ (hready.past hr hfills result)
    unfold RunsOver at hnext
    rw [ok_bind]
    cases hbodies : forestRead ctx roots with
    | error e =>
      rw [hbodies] at hnext
      obtain ⟨w, hw⟩ := hnext
      exact ⟨w, (bind_of_ok hpart).trans hw⟩
    | ok bodies =>
      rw [hbodies] at hnext
      obtain ⟨id'', walk'', more, ⟨hready', hadvances, hgaps⟩, hrun⟩ := hnext
      let next : Row := ⟨row.stop + root.nesting.size, []⟩
      have hrows : rows (holds ctx) row.stop row (root :: roots) =
          (row :: (rows (holds ctx) next.start next roots).1,
            (rows (holds ctx) next.start next roots).2) := by
        rw [rows, holds, hf]
        rfl
      refine ⟨id'', walk'', new ++ more, ⟨?_, hadvances.past hfills, ?_⟩,
        (bind_of_ok hpart).trans hrun⟩
      · rw [forestSize_cons, ← Nat.add_assoc, hrows]
        exact hready'.congr fun x => by rw [forestIds_cons, List.mem_append]; tauto
      · rw [hrows]
        exact hfills.gaps.append hgaps

/-- Following a schedule reads its roots, and goes on with what is left of it. -/
lemma forest_reads {body? : RecordId → Option (Body .bound)} {tail schedule : List Scheduled}
    (h : Follows body? tail seen start schedule roots)
    (hready : Ready s ctx seen start walk row (forestBytes s.bytesOf roots ++ rest))
    (hroots : ∀ root ∈ roots, Readable s ctx root)
    (hknows : Knows ctx (forestPlots start roots)) (nextId : RecordId) :
    RunsOver s ctx seen start roots rest nextId walk row
      ((schedule.filter (known ctx)).foldlM (part ctx) nextId walk)
      (fun id' walk' => (tail.filter (known ctx)).foldlM (part ctx) id' walk') := by
  induction h generalizing walk row nextId with
  | done => exact .nil hready rfl
  | @skip seen start a b id rest roots hid _ ih =>
    cases hknown : known ctx ⟨a, b, .function id⟩ with
    | false =>
      rw [List.filter_cons_of_neg (by rw [hknown]; exact Bool.false_ne_true)]
      exact ih hready hroots hknows nextId
    | true =>
      have hmem : Part.function id ∈ walk.seen.parts := (hready.seen id hknown).mp hid
      rw [List.filter_cons_of_pos hknown, List.foldlM_cons]
      have hpart : part ctx nextId ⟨a, b, .function id⟩ walk = .ok nextId walk := part_of_mem hmem
      rw [bind_of_ok hpart]
      exact ih hready hroots hknows nextId
  | @root seen start root rest roots hid _ hproper _ ih =>
    rw [List.forall_mem_cons] at hroots
    obtain ⟨hself, hothers⟩ := List.forall_mem_append.mp hknows
    rw [forestBytes, List.flatMap_cons, List.append_assoc] at hready
    cases hf : ctx.script.functions.get? root.id with
    | none =>
      have hknown : ¬ known ctx (root.plot start).scheduled = true := by
        simp [known, holds, Plot.scheduled, Root.plot, hf]
      rw [List.filter_cons_of_neg hknown]
      exact .hidden hroots.1 hf
        (ih (hready.hide hroots.1 hf hproper) hroots.2 hothers nextId)
    | some f =>
      have hknown : known ctx (root.plot start).scheduled = true := by
        simp [known, holds, Plot.scheduled, Root.plot, hf]
      rw [List.filter_cons_of_pos hknown, List.foldlM_cons]
      exact .shown hroots.1 hf hid hproper hself hready fun id' walk' hready' =>
        ih hready' hroots.2 hothers id'

end Walking

end ScriptContainer
