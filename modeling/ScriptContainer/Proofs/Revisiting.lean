import ScriptContainer.Proofs.Accounting
import ScriptContainer.Proofs.StepBounds

/-!
# Functions that are read twice

A container brings about a fault of the program in one way only. Code that belongs to no declared
function ends with an instruction that starts a function without code, which is declared right after
it: the function is read with that code, and then once more as the part that is due.
-/

namespace ScriptContainer

/-- A declared function without code starts where an instruction ends that starts it and that belongs
to no declared function. -/
structure Script.EndsGap (s : Script) (bytes : Array UInt8) (base : Nat) (f : Function) : Prop where
  declared : f ∈ s.functions.records
  empty : f.codeStart = f.codeEnd
  started : ∃ i : Instruction .bound, i.spawned? = some f.id ∧
    s.Finds bytes base (i, f.codeStart.toNat) ∧
    ∀ g ∈ s.functions.records, g.codeStart.toNat < f.codeStart.toNat →
      g.codeEnd.toNat + i.size ≤ f.codeStart.toNat

/-- The error is that such a function is read with the code before it and then once more. -/
def Error.Revisits (e : Error) (s : Script) (bytes : Array UInt8) (base : Nat) : Prop :=
  ∃ f, e = .doubleVisit (.function f.id) ∧ s.EndsGap bytes base f

/-- A function that is come upon in the code up to its start has no code, and that code ends with an
instruction that starts it. -/
lemma Unfolds.endsGap {s : Script} {bytes : Array UInt8} {base reach : Nat} {seen : RecordId → Prop}
    {n : Nesting} {f : Function} (h : Unfolds s bytes base seen reach n)
    (hsize : reach + n.size = f.codeStart.toNat) (hf : f ∈ s.functions.records) (hid : f.id ∈ n.ids)
    (hbefore : ∀ g ∈ s.functions.records, g.codeStart.toNat < f.codeStart.toNat →
      g.codeEnd.toNat ≤ reach) : s.EndsGap bytes base f := by
  rw [← n.map_id_plots reach] at hid
  obtain ⟨p, hp, hpid⟩ := List.mem_map.mp hid
  obtain ⟨f', hf', hstart, hstop⟩ := h.declares p hp
  obtain rfl : f = f' := Registry.eq_of_get? hf hpid.symm hf'
  have hbounds := Nesting.start_le_of_mem_plots hp
  have hplot : p.stop = p.start + p.nesting.size := rfl
  obtain ⟨body?, hproper⟩ := h.exists_proper
  let root : Root := ⟨f.id, n⟩
  have hinside : p ∈ root.plots reach := List.mem_cons_of_mem _ hp
  obtain ⟨q, hq, -, -, i, hi, hspawn⟩ :=
    Root.exists_host hproper hinside (Nesting.isInline_of_mem_plots hp)
  have hqstart : reach ≤ q.start := (Root.bounds_of_mem_plots hq).1
  have hroom : q.start + i.size ≤ p.start := Nesting.add_size_le_of_mem_instructions hi
  refine ⟨hf, UInt32.toNat_inj.mp (by omega), i, hpid ▸ hspawn, ?_, fun g hg hlt => ?_⟩
  · rw [hstart]
    exact Walking.Covered.code_finds f.id false h q hq _ hi
  · have := hbefore g hg hlt
    omega

namespace Walking

variable {ctx : Context}

lemma elements_composed (t : Table) : Composed (elements ctx t) := by
  unfold elements
  cases t.type with
  | «variable» =>
    refine Composed.bind (Composed.times (Composed.word.bind fun w => ?_) _) fun _ => .pure _
    have hexcused : Excused (ctx.findVariable (.id w)) := Context.orUnknown_excused
    cases hfind : ctx.findVariable (.id w) with
    | ok ref => exact .pure ref
    | error e => exact .blame (hexcused e hfind)
  | int => exact (Composed.signed.times _).map
  | float => exact (Composed.single.times _).map
  | byte => exact (Composed.bytes _).bind fun _ => (Composed.bytes _).bind fun _ => .pure _

lemma payload_composed (t : Table) : Composed (payload ctx t) := by
  refine Composed.offset.bind fun here => Composed.word.bind fun opening => ?_
  split
  · exact .malformed _ _
  · refine (elements_composed t).bind fun values => Composed.offset.bind fun here => ?_
    refine Composed.word.bind fun closing => ?_
    split
    · exact .malformed _ _
    · exact .pure _

lemma table_proceeds {ref : TableRef} {t : Table} {walk : Walk}
    (h : .table ⟨ref.owner, t.id⟩ ∉ walk.seen.parts) : Proceeds (table ctx ref t) walk := by
  refine (Proceeds.visit h).bind fun _ walk' _ => ?_
  have hread (inner : Context) (walk : Walk) : Proceeds (do
      let values ← ofRead (payload inner t)
      note fun found => { found with tables := found.tables ++ [(ref, values)] }) walk :=
    (Proceeds.ofRead (payload_consumes t) (payload_composed t).faultless).bind fun _ _ _ => .note _
  cases ref.owner with
  | script => exact hread ctx walk'
  | function id =>
    exact (Proceeds.ofExcept (ctx.script.requireFunction_excused id)).bind fun f walk'' _ =>
      hread (ctx.push f) walk''

lemma before_proceeds (nextId : RecordId) (start : Nat) (next : Part) (walk : Walk) :
    Proceeds (before ctx nextId start next) walk := by
  refine Proceeds.offset.bind fun here walk' _ => ?_
  split
  · refine Proceeds.bind ?_ fun _ _ _ => .pure _
    refine Proceeds.offset.bind fun here' walk'' _ => ?_
    exact Proceeds.bind ⟨0, rfl⟩ fun steps walk''' _ =>
      (body_proceeds ctx start steps walk''').bind fun _ _ _ => .note _
  · split
    · exact .malformed _ _
    · exact .pure _

section Region

variable {s : Script} {bytes : Array UInt8} {base reach : Nat} {walk : Walk}
  {plots others : List Plot} {entries : List (TableRef × Table)}

lemma Covered.codeEnd_le (h : Covered s bytes base walk plots others entries reach) {g : Function}
    (hg : g ∈ s.functions.records) (hmet : .function g.id ∈ walk.seen.parts) :
    g.codeEnd.toNat ≤ reach := by
  obtain ⟨p, hp, hid⟩ := List.mem_map.mp (h.function_mem_iff.mp hmet)
  obtain ⟨g', hg', -, hstop⟩ := h.declares p hp
  obtain rfl : g = g' := Registry.eq_of_get? hg hid.symm hg'
  rw [hstop]
  exact h.covers.stop_le p (List.mem_append_left _ hp)

/-- A function that is come upon before it is due, after all those that start earlier, has no code
and is started at the end of the code before it. -/
lemma before_meets (h : Covered s bytes base walk plots others entries reach)
    (hscript : ctx.script = s) (hbase : ctx.codeBase = base) {f : Function}
    (hf : f ∈ s.functions.records) (hnew : .function f.id ∉ walk.seen.parts)
    (hearlier : ∀ g ∈ s.functions.records, g.codeStart.toNat < f.codeStart.toNat →
      .function g.id ∈ walk.seen.parts) (nextId : RecordId) (next : Part) :
    Outcome (before ctx nextId (ctx.codeBase + f.codeStart.toNat) next walk)
      (fun _ walk' => .function f.id ∈ walk'.seen.parts → s.EndsGap bytes base f)
      fun _ => True := by
  have hpos : walk.reader.offset = ctx.codeBase + reach := by rw [h.offset_eq, hbase]
  unfold before
  rw [bind_of_ok offset_apply]
  split
  case isFalse =>
    split
    · trivial
    · exact fun hmet => absurd hmet hnew
  case isTrue =>
    have hgap : Outcome (gap ctx nextId (ctx.codeBase + f.codeStart.toNat) next walk)
        (fun _ walk' => .function f.id ∈ walk'.seen.parts → s.EndsGap bytes base f)
        fun _ => True := by
      unfold gap
      rw [bind_of_ok offset_apply,
        bind_of_ok (rfl : enoughSteps walk = .ok (walk.reader.remaining + 2) walk)]
      refine (body_outcome ctx _ _ hpos).bind fun code last hlast => ?_
      obtain ⟨n, rfl, hsize, rfl, hunfolds⟩ := hlast
      rw [hscript, hbase, h.reader] at hunfolds
      intro hmet
      have hinside : f.id ∈ n.ids := by
        rcases List.mem_append.mp hmet with hmem | hmem
        · obtain ⟨id, hid, heq⟩ := List.mem_map.mp (List.mem_reverse.mp hmem)
          exact Part.function.inj heq ▸ hid
        · exact absurd hmem hnew
      exact hunfolds.endsGap hsize hf hinside fun g hg hlt => h.codeEnd_le hg (hearlier g hg hlt)
    exact hgap.bind fun _ _ hmeets => hmeets

lemma function_faults (ctx : Context) (f : Function) (steps : Nat) (walk : Walk) :
    Outcome (function ctx f (steps + 1) walk) (fun _ _ => True)
      fun e => e.IsFault → e = .doubleVisit (.function f.id) ∧ .function f.id ∈ walk.seen.parts := by
  by_cases hmet : .function f.id ∈ walk.seen.parts
  · rw [function, bind_of_error (visit_of_mem hmet)]
    exact fun _ => ⟨rfl, hmet⟩
  · exact (function_proceeds ctx f _ hmet).mono (fun _ _ _ => trivial) fun e he hfault =>
      absurd hfault he

/-- A part that is read after all those that start earlier fails without a fault of the program, or
because it has been read just before. -/
lemma part_faults (h : Covered s bytes base walk plots others entries reach)
    (hscript : ctx.script = s) (hbase : ctx.codeBase = base) {scheduled : Scheduled}
    (hmem : scheduled ∈ s.schedule)
    (hearlier : ∀ earlier ∈ s.schedule, earlier.start < scheduled.start →
      earlier.part ∈ walk.seen.parts) (nextId : RecordId) :
    Outcome (part ctx nextId scheduled walk) (fun _ _ => True)
      fun e => e.IsFault → e.Revisits s bytes base := by
  by_cases hseen : scheduled.part ∈ walk.seen.parts
  · rw [part_of_mem hseen]
    trivial
  rcases part_cases hscript hmem hseen nextId with ⟨f, hf, rfl, hpart⟩ | ⟨ref, t, ht, rfl, hpart⟩
  · rw [hpart]
    refine (before_proceeds nextId _ _ walk).andThen fun id' middle hmiddle => ?_
    have hread (g : Function) (hg : g ∈ s.functions.records) :
        g.codeStart.toNat < f.codeStart.toNat → .function g.id ∈ walk.seen.parts :=
      hearlier _ (Script.mem_schedule_iff.mpr (.inl ⟨g, hg, rfl⟩))
    have hgap : .function f.id ∈ middle.seen.parts → s.EndsGap bytes base f :=
      (before_meets h hscript hbase hf hseen hread nextId _).of_ok hmiddle
    change Outcome ((function ctx f (middle.reader.remaining + 2) >>= fun _ => pure id') middle) _ _
    refine Outcome.bind ((function_faults ctx f _ middle).mono (fun _ _ h => h) ?_)
      fun _ _ _ => trivial
    intro e he hfault
    obtain ⟨rfl, hmet⟩ := he hfault
    exact ⟨f, rfl, hgap hmet⟩
  · rw [hpart]
    refine (before_proceeds nextId _ _ walk).andThen fun id' middle hmiddle => ?_
    -- Code before a part brings up functions, but no tables.
    obtain ⟨plots', others', hcovered⟩ :=
      (before_outcome h hscript hbase t.start.toNat_lt nextId _).of_ok hmiddle
    have hnew : .table ref ∉ middle.seen.parts := by
      rw [hcovered.table_mem_iff, ← h.table_mem_iff]
      exact hseen
    have hid : t.id = ref.id := Script.id_of_table? ht
    change Outcome ((table ctx ref t >>= fun _ => pure id') middle) _ _
    exact (table_proceeds (hid ▸ hnew)).andThen fun _ _ _ => trivial

/-- Following what is left of the schedule does so too: what has been followed starts no later. -/
lemma parts_faults {rest : List Scheduled} (hsorted : rest.Pairwise fun a b => a.le b = true)
    (hrest : ∀ scheduled ∈ rest, scheduled ∈ s.schedule)
    (hdue : ∀ scheduled ∈ s.schedule, scheduled ∈ rest ∨ scheduled.part ∈ walk.seen.parts)
    (h : Covered s bytes base walk plots others entries reach) (hscript : ctx.script = s)
    (hbase : ctx.codeBase = base) (nextId : RecordId) :
    Outcome (rest.foldlM (part ctx) nextId walk) (fun _ _ => True)
      fun e => e.IsFault → e.Revisits s bytes base := by
  induction rest generalizing walk plots others entries reach nextId with
  | nil => trivial
  | cons scheduled rest ih =>
    rw [List.pairwise_cons] at hsorted
    rw [List.forall_mem_cons] at hrest
    have hearlier : ∀ earlier ∈ s.schedule, earlier.start < scheduled.start →
        earlier.part ∈ walk.seen.parts := by
      intro earlier hmem hlt
      rcases hdue earlier hmem with hlater | hmet
      · rcases List.mem_cons.mp hlater with rfl | hlater
        · exact absurd hlt (Nat.lt_irrefl _)
        · have hle := Scheduled.le_iff.mp (hsorted.1 earlier hlater)
          omega
      · exact hmet
    rw [List.foldlM_cons]
    cases hrun : part ctx nextId scheduled walk with
    | error e middle =>
      rw [bind_of_error hrun]
      exact (part_faults h hscript hbase hrest.1 hearlier nextId).of_error hrun
    | ok id' middle =>
      obtain ⟨hself, more, others', moreEntries, reach', hmiddle⟩ :=
        (part_outcome h hscript hbase hrest.1 nextId).of_ok hrun
      rw [bind_of_ok hrun]
      refine ih hsorted.2 hrest.2 (fun other hother => ?_) hmiddle id'
      rcases hdue other hother with hlater | hmet
      · rcases List.mem_cons.mp hlater with rfl | hlater
        · exact .inr hself
        · exact .inl hlater
      · exact .inr (h.mem_of_mem hmiddle hmet)

end Region

end Walking

namespace Read

lemma region_faults (s : Script) (r : Reader) :
    Outcome (region s r) (fun _ _ => True) fun e => e.IsFault → e.Revisits s r.bytes r.offset := by
  have hmoves : Consumes (do wordsUntil (← length)) fun _ _ => True :=
    length_consumes.bind fun size _ _ => (Composed.wordsUntil size).moves.mono fun _ _ _ => trivial
  have hfaultless : Faultless (do wordsUntil (← length)) :=
    Faultless.bind (fun _ => trivial) fun size => (Composed.wordsUntil size).faultless
  refine region_outcome ?_
  unfold Walking.region
  refine Outcome.bind (Walking.parts_faults (Scheduled.pairwise_schedule s) (fun _ h => h)
    (fun _ => .inl) (Walking.Covered.start s r) rfl rfl _) fun _ walk _ => ?_
  exact (Walking.Proceeds.ofRead hmoves hfaultless).andThen fun _ _ _ => trivial

lemma checkLabels_faultless (options : Options) (f : Function) : Faultless (checkLabels options f) := by
  have hyields := f.checkLabels_yields options
  unfold checkLabels
  cases hcheck : f.checkLabels options with
  | ok _ => exact .pure _
  | error e =>
    obtain ⟨_, _, _, _, rfl⟩ := hyields.of_error hcheck
    exact .throw id

lemma code_faults (options : Options) (declared : Script) (bytes : Array UInt8) (base : Nat) :
    Outcome (code options declared ⟨bytes, base⟩) (fun _ _ => True)
      fun e => e.IsFault → e.Revisits declared bytes (base + 4) := by
  cases hword : word ⟨bytes, base⟩ with
  | error e r =>
    unfold code
    rw [bind_of_ok (rfl : offset ⟨bytes, base⟩ = .ok base ⟨bytes, base⟩), bind_of_error hword]
    exact fun hfault => absurd hfault ((Composed.word.faultless _).of_error hword)
  | ok count r =>
    obtain rfl : r = ⟨bytes, base + 4⟩ := word_of_ok hword
    rw [code_of_word hword]
    split
    · exact fun hfault => absurd hfault id
    refine (region_faults declared _).bind fun found r _ => ?_
    have hlabels : Faultless ((found.apply declared).functions.records.forM (checkLabels options)) :=
      .forM (checkLabels_faultless options) _
    refine Outcome.bind ((hlabels r).mono (fun _ _ h => h) fun e he hfault => absurd hfault he) ?_
    exact fun _ _ _ => trivial

end Read

/-- A container brings about a fault of the program only where a function without code that is
declared right after code of no function is read with that code and then once more. The steps that
reading code may take are never used up, however functions start each other: with any more steps
everything goes the same way. -/
theorem Script.parse_faults (options : Options) (bytes : Array UInt8) :
    (∀ e, parse options bytes = .error e → e.IsFault → ∃ declared base,
      Read.declarations ⟨bytes, magic.length⟩ = .ok declared ⟨bytes, base⟩ ∧
        e.Revisits declared bytes (base + 4)) ∧
    ∀ (ctx : Context) (walk : Walk) (steps : Nat), walk.left + 2 ≤ steps →
      (∀ stop, Walking.body ctx stop steps walk =
        (do Walking.body ctx stop (← Walking.enoughSteps) : Walking _) walk) ∧
      ∀ f, Walking.function ctx f steps walk =
        (do Walking.function ctx f (← Walking.enoughSteps) : Walking _) walk := by
  refine ⟨fun e hparse hfault => ?_, fun ctx walk steps hsteps => ⟨fun stop => ?_, fun f => ?_⟩⟩
  · unfold parse at hparse
    split at hparse
    · cases hparse
      exact absurd hfault id
    rw [Read.script_eq] at hparse
    cases hsections : Read.declarations ⟨bytes, magic.length⟩ with
    | error e' r =>
      rw [bind_of_error hsections] at hparse
      obtain rfl := Except.error.inj hparse
      exact absurd hfault ((Composed.declarations.faultless _).of_error hsections)
    | ok declared r =>
      obtain ⟨bytes', base⟩ := r
      obtain rfl : bytes' = bytes := Composed.declarations.bytes_eq hsections
      rw [bind_of_ok hsections] at hparse
      cases hcode : Read.code options declared ⟨bytes', base⟩ with
      | ok s r =>
        rw [hcode] at hparse
        cases hparse
      | error e' r =>
        rw [hcode] at hparse
        obtain rfl := Except.error.inj hparse
        exact ⟨declared, base, rfl, (Read.code_faults options declared _ base).of_error hcode hfault⟩
  · exact Walking.body_congr ctx stop (by omega) (Nat.le_succ _)
  · exact Walking.function_congr ctx f hsteps le_rfl

/-- A container with code that belongs to no declared function and starts the only one, which has no
code and is declared right after it. -/
def vestibule : Array UInt8 :=
  (magic ++ bytesOfWords [11, 11, 23, 24, 25, 26, 27, 28, 0, 1,
    0, 1, 0, 0, 4, 4, 0, 0, 0, 0, 0, 0, 0, 0, 0, 0, 4, 6, 1, 8, 17]).toArray

lemma vestibule_fails : Script.parse .lenient vestibule = .error (.doubleVisit (.function 1)) := by
  have hopens : Opens vestibule 112 := by decide +kernel
  exact hopens.parse_error (by decide +kernel)

/-- The function is read with the code before it, which starts it, and then as the part that is due. -/
theorem vestibule_revisited : Script.parse .lenient vestibule = .error (.doubleVisit (.function 1)) ∧
    Error.IsFault (.doubleVisit (.function 1)) :=
  ⟨vestibule_fails, trivial⟩

theorem vestibule_faults : Script.parse .lenient vestibule = .error (.doubleVisit (.function 1)) ∧
    (∃ declared base, Read.declarations ⟨vestibule, magic.length⟩ = .ok declared ⟨vestibule, base⟩ ∧
      Error.Revisits (.doubleVisit (.function 1)) declared vestibule (base + 4)) ∧
    ∀ ctx stop, Walking.body ctx stop 100 ⟨⟨vestibule, 116⟩, .nothing, ⟨[], [], [], [], []⟩⟩ =
      (do Walking.body ctx stop (← Walking.enoughSteps) : Walking _)
        ⟨⟨vestibule, 116⟩, .nothing, ⟨[], [], [], [], []⟩⟩ :=
  ⟨vestibule_fails, (Script.parse_faults .lenient vestibule).1 _ vestibule_fails trivial,
    fun ctx => ((Script.parse_faults .lenient vestibule).2 ctx _ 100 (by decide +kernel)).1⟩

end ScriptContainer
