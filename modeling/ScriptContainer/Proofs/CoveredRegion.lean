import ScriptContainer.Proofs.Covering
import ScriptContainer.Proofs.Unfolding

/-!
# Walks over the code region

Reading the code region goes over its bytes in order. What has been read at any point, the functions
with the functions inside them, the functions made of other code and the tables, covers the bytes that
have been gone over.
-/

namespace ScriptContainer

/-- The function stands in the place of the plot and has its code. -/
structure Function.StandsAt (f : Function) (p : Plot) : Prop where
  id : f.id = p.id
  start : f.codeStart.toNat = p.start
  stop : f.codeEnd.toNat = p.stop
  isInline : f.isInline = p.isInline
  code : f.code = p.nesting.code

section Lists

variable {α β : Type}

lemma perm_insert {old new left right : List α} (h : old.Perm (left ++ right)) :
    (new ++ old).Perm ((left ++ new) ++ right) := by
  rw [List.append_assoc]
  exact (h.append_left new).trans (List.perm_append_comm_assoc new left right)

lemma Nesting.map_part_plots (n : Nesting) (start : Nat) :
    (n.plots start).map (fun p => Part.function p.id) = n.ids.map Part.function := by
  rw [← n.map_id_plots start, List.map_map]
  rfl

lemma Nesting.filter_isInline_plots (n : Nesting) (start : Nat) :
    (n.plots start).filter Plot.isInline = n.plots start :=
  List.filter_eq_self.mpr fun _ hp => isInline_of_mem_plots hp

lemma Nesting.bodies_perm (n : Nesting) (start : Nat) :
    n.bodies.Perm ((n.plots start).map fun p => (p.id, p.nesting.code)) := by
  induction n generalizing start with
  | done => exact .nil
  | step i rest ih => exact ih _
  | host i id inner rest ihi ihr =>
    rw [bodies, plots, List.map_cons, List.map_append]
    exact List.perm_middle.trans (((ihi _).append (ihr _)).cons _)

end Lists

namespace Walking

variable {ctx : Context}

lemma elements_consumes (t : Table) :
    Consumes (elements ctx t) fun _ n => n = alignUp (t.length.toNat * t.type.elementSize) := by
  have hwords : alignUp (t.length.toNat * 4) = t.length.toNat * 4 := by
    unfold alignUp
    omega
  unfold elements
  cases t.type with
  | «variable» =>
    refine (Read.times_consumes ?_ _).bind fun values n hn => .pure (hn.2.trans hwords.symm)
    refine Read.word_consumes.bind fun w m hm => ?_
    cases ctx.findVariable (.id w) with
    | ok ref => exact .pure hm
    | error e => exact .throw e
  | int =>
    refine (Read.times_consumes Read.signed_consumes _).map fun values n hn => ?_
    exact hn.2.trans hwords.symm
  | float =>
    refine (Read.times_consumes Read.single_consumes _).map fun values n hn => ?_
    exact hn.2.trans hwords.symm
  | byte =>
    refine (Read.bytes_consumes _).bind fun values m hm => ?_
    refine (Read.bytes_consumes _).bind fun _ n hn => .pure ?_
    have hle : t.length.toNat ≤ alignUp t.length.toNat := by
      unfold alignUp
      omega
    rw [ElementType.elementSize, Nat.mul_one]
    omega

lemma payload_consumes (t : Table) : Consumes (payload ctx t) fun _ n => n = t.payloadSize := by
  refine Read.offset_consumes.bind fun here a ha => Read.word_consumes.bind fun opening b hb => ?_
  split
  · exact .throw _
  · refine (elements_consumes t).bind fun values c hc => Read.offset_consumes.bind fun here d hd => ?_
    refine Read.word_consumes.bind fun closing e he => ?_
    split
    · exact .throw _
    · refine .pure ?_
      rw [Table.payloadSize]
      omega

lemma nodup_functions_append {ids : List RecordId} {parts : List Part} (hids : ids.Nodup)
    (hnew : ∀ id ∈ ids, .function id ∉ parts) (hparts : parts.Nodup) :
    ((ids.map Part.function).reverse ++ parts).Nodup := by
  rw [List.nodup_append, List.nodup_reverse]
  refine ⟨hids.map fun _ _ he => Part.function.inj he, hparts, ?_⟩
  rintro a ha b hb rfl
  obtain ⟨id, hid, rfl⟩ := List.mem_map.mp (List.mem_reverse.mp ha)
  exact hnew id hid hb

/-- The walk has gone over the code region up to `reach` and has found these functions, functions
made of other code and tables. -/
structure Covered (s : Script) (bytes : Array UInt8) (base : Nat) (walk : Walk)
    (plots others : List Plot) (entries : List (TableRef × Table)) (reach : Nat) : Prop where
  reader : walk.reader = ⟨bytes, base + reach⟩
  covers : Covers (plots ++ others) (entries.map Prod.snd) reach
  declares : ∀ p ∈ plots, s.Declares p
  held : ∀ entry ∈ entries, s.table? entry.1 = some entry.2
  seen : walk.seen.parts.Perm
    (plots.map (fun p => .function p.id) ++ entries.map fun entry => .table entry.1)
  once : walk.seen.parts.Nodup
  bodies : walk.findings.bodies.Perm (plots.map fun p => (p.id, p.nesting.code))
  inlined : walk.findings.inlined.Perm ((plots.filter Plot.isInline).map Plot.id)
  tables : walk.findings.tables.map Prod.fst = entries.map Prod.fst
  gaps : List.Forall₂ Function.StandsAt (walk.findings.gaps.map Prod.snd) others
  finds : ∀ p ∈ plots ++ others, ∀ entry ∈ p.instructions, s.Finds bytes base entry

variable {s : Script} {bytes : Array UInt8} {base reach : Nat} {walk walk' : Walk}
  {plots others : List Plot} {entries : List (TableRef × Table)}

namespace Covered

lemma start (s : Script) (r : Reader) :
    Covered s r.bytes r.offset ⟨r, .nothing, ⟨[], [], [], [], []⟩⟩ [] [] [] 0 where
  reader := rfl
  covers := .nil
  declares := List.forall_mem_nil _
  held := List.forall_mem_nil _
  seen := .nil
  once := .nil
  bodies := .nil
  inlined := .nil
  tables := rfl
  gaps := .nil
  finds := List.forall_mem_nil _

lemma offset_eq (h : Covered s bytes base walk plots others entries reach) :
    walk.reader.offset = base + reach := by rw [h.reader]

lemma reader_skip (h : Covered s bytes base walk plots others entries reach) {count stop : Nat}
    (hstop : reach + count = stop) : walk.reader.skip count = ⟨bytes, base + stop⟩ := by
  rw [h.reader, ← hstop, ← Nat.add_assoc]
  rfl

lemma code_finds {n : Nesting} {seen : RecordId → Prop} (id : RecordId) (isInline : Bool)
    (h : Unfolds s bytes base seen reach n) :
    ∀ p ∈ (⟨id, reach, n, isInline⟩ : Plot) :: n.plots reach, ∀ entry ∈ p.instructions,
      s.Finds bytes base entry := by
  refine List.forall_mem_cons.mpr ⟨fun entry hentry => ?_, fun p hp entry hentry => ?_⟩
  · exact h.finds entry (List.mem_append_left _ hentry)
  · exact h.finds entry (List.mem_append_right _ (List.mem_flatMap.mpr ⟨p, hp, hentry⟩))

lemma function (h : Covered s bytes base walk plots others entries reach) {f : Function}
    (hscript : ctx.script = s) (hbase : ctx.codeBase = base) (hf : s.functions.get? f.id = some f)
    (hstart : f.codeStart.toNat = reach) (hread : HasReadFunction ctx walk reach f walk') :
    ∃ plots', Covered s bytes base walk' (plots ++ plots') others entries f.codeEnd.toNat := by
  obtain ⟨n, hnew, hsize, rfl, hunfolds⟩ := hread
  rw [hscript, hbase, h.reader] at hunfolds
  obtain ⟨body?, hproper⟩ := hunfolds.exists_proper
  let root : Root := ⟨f.id, n⟩
  have hparts : (root.plots reach).map (fun p => Part.function p.id) =
      .function f.id :: n.ids.map Part.function := congrArg _ (n.map_part_plots reach)
  refine ⟨root.plots reach, {
    reader := ?reader
    covers := ?covers
    declares := ?declares
    held := h.held
    seen := ?seen
    once := ?once
    bodies := ?bodies
    inlined := ?inlined
    tables := h.tables
    gaps := h.gaps
    finds := ?finds }⟩
  case reader => exact h.reader_skip hsize
  case covers =>
    rw [← hsize]
    have hcode : Covers (plots ++ others ++ root.plots reach) (entries.map Prod.snd)
        (reach + n.size) := h.covers.code hproper
    refine hcode.perm ?_
    rw [List.append_assoc, List.append_assoc]
    exact List.perm_append_comm.append_left plots
  case declares =>
    refine List.forall_mem_append.mpr ⟨h.declares, List.forall_mem_cons.mpr ⟨?_, hunfolds.declares⟩⟩
    exact ⟨f, hf, hstart, hsize.symm⟩
  case seen =>
    rw [List.map_append, hparts]
    have hperm : ((n.ids.map Part.function).reverse ++ [Part.function f.id]).Perm
        (.function f.id :: n.ids.map Part.function) :=
      (List.perm_append_singleton _ _).trans ((List.reverse_perm _).cons _)
    have hall := (hperm.append_right walk.seen.parts).trans (perm_insert h.seen)
    rwa [List.append_assoc] at hall
  case once =>
    -- The function is taken up before its code is read, so that it does not come up inside itself.
    have hfresh : (.function f.id) ∉ walk.seen.parts := hnew
    refine nodup_functions_append hunfolds.once.1 (fun x hx hseen => ?_)
      (List.nodup_cons.mpr ⟨hfresh, h.once⟩)
    exact hunfolds.once.2 x hx ((List.mem_cons.mp hseen).imp_left Part.function.inj)
  case bodies =>
    -- Its body is noted after those of the functions inside it.
    rw [List.map_append]
    refine h.bodies.append ((List.perm_append_singleton _ _).trans ?_)
    exact (n.bodies_perm reach).cons _
  case inlined =>
    have hinside : (root.plots reach).filter Plot.isInline = n.plots reach := by
      rw [Root.plots, List.filter_cons_of_neg Bool.false_ne_true]
      exact n.filter_isInline_plots reach
    rw [List.filter_append, List.map_append, hinside, n.map_id_plots]
    exact ((List.reverse_perm _).append h.inlined).trans List.perm_append_comm
  case finds =>
    intro p hp
    rw [List.append_assoc, List.mem_append, List.mem_append] at hp
    rcases hp with hp | hp | hp
    · exact h.finds p (List.mem_append_left _ hp)
    · exact code_finds f.id false hunfolds p hp
    · exact h.finds p (List.mem_append_right _ hp)

lemma gap (h : Covered s bytes base walk plots others entries reach) {stop : Nat} {code : Body .bound}
    {placement : Placement} {g : Function} (hscript : ctx.script = s) (hbase : ctx.codeBase = base)
    (hread : HasRead ctx walk reach stop code walk') (hcode : g.code = code)
    (hstart : g.codeStart.toNat = reach) (hstop : g.codeEnd.toNat = stop)
    (hinline : g.isInline = false) :
    ∃ plots' gap, Covered s bytes base { walk' with
        findings := { walk'.findings with gaps := walk'.findings.gaps ++ [(placement, g)] } }
      (plots ++ plots') (others ++ [gap]) entries stop := by
  obtain ⟨n, rfl, hsize, rfl, hunfolds⟩ := hread
  rw [hscript, hbase, h.reader] at hunfolds
  obtain ⟨body?, hproper⟩ := hunfolds.exists_proper
  let root : Root := ⟨g.id, n⟩
  refine ⟨n.plots reach, root.plot reach, {
    reader := ?reader
    covers := ?covers
    declares := List.forall_mem_append.mpr ⟨h.declares, hunfolds.declares⟩
    held := h.held
    seen := ?seen
    once := ?once
    bodies := ?bodies
    inlined := ?inlined
    tables := h.tables
    gaps := ?gaps
    finds := ?finds }⟩
  case reader => exact h.reader_skip hsize
  case covers =>
    rw [← hsize]
    have hcode : Covers (plots ++ others ++ root.plots reach) (entries.map Prod.snd)
        (reach + n.size) := h.covers.code hproper
    refine hcode.perm ?_
    rw [List.append_assoc, List.append_assoc, Root.plots]
    refine List.Perm.append_left plots ?_
    have hgap : ([root.plot reach] ++ n.plots reach).Perm (n.plots reach ++ [root.plot reach]) :=
      List.perm_append_comm
    refine (hgap.append_left others).trans ?_
    exact List.perm_append_comm_assoc others (n.plots reach) [root.plot reach]
  case seen =>
    rw [List.map_append, n.map_part_plots]
    exact ((List.reverse_perm _).append_right _).trans (perm_insert h.seen)
  case once => exact nodup_functions_append hunfolds.once.1 hunfolds.once.2 h.once
  case bodies =>
    rw [List.map_append]
    exact h.bodies.append (n.bodies_perm reach)
  case inlined =>
    rw [List.filter_append, List.map_append, n.filter_isInline_plots, n.map_id_plots]
    exact ((List.reverse_perm _).append h.inlined).trans List.perm_append_comm
  case gaps =>
    have hstands : g.StandsAt (root.plot reach) :=
      ⟨rfl, hstart, hstop.trans hsize.symm, hinline, hcode⟩
    change List.Forall₂ _ ((walk.findings.gaps ++ [(placement, g)]).map Prod.snd) _
    rw [List.map_append]
    exact List.rel_append h.gaps (.cons hstands .nil)
  case finds =>
    intro p hp
    rw [List.mem_append, List.mem_append, List.mem_append] at hp
    have hnew := code_finds g.id false hunfolds
    rcases hp with (hp | hp) | hp | hp
    · exact h.finds p (List.mem_append_left _ hp)
    · exact hnew p (List.mem_cons_of_mem _ hp)
    · exact h.finds p (List.mem_append_right _ hp)
    · obtain rfl := List.mem_singleton.mp hp
      exact hnew _ List.mem_cons_self

lemma table (h : Covered s bytes base walk plots others entries reach) {ref : TableRef} {t : Table}
    {values : TableValues VarRef} (ht : s.table? ref = some t) (hstart : t.start.toNat = reach)
    (hnew : .table ref ∉ walk.seen.parts) :
    Covered s bytes base ⟨walk.reader.skip t.payloadSize, ⟨.table ref :: walk.seen.parts⟩,
        { walk.findings with tables := walk.findings.tables ++ [(ref, values)] }⟩
      plots others (entries ++ [(ref, t)]) (reach + t.payloadSize) where
  reader := h.reader_skip rfl
  covers := by
    subst hstart
    rw [List.map_append]
    exact h.covers.table
  declares := h.declares
  held := by
    refine List.forall_mem_append.mpr ⟨h.held, fun entry hentry => ?_⟩
    obtain rfl := List.mem_singleton.mp hentry
    exact ht
  seen := by
    rw [List.map_append, ← List.append_assoc]
    exact (h.seen.cons _).trans (List.perm_append_singleton _ _).symm
  once := List.nodup_cons.mpr ⟨hnew, h.once⟩
  bodies := h.bodies
  inlined := h.inlined
  tables := by
    rw [List.map_append, List.map_append, h.tables]
    rfl
  gaps := h.gaps
  finds := h.finds

end Covered

lemma Covered.mem_of_mem {plots' others' : List Plot} {entries' : List (TableRef × Table)} {reach' : Nat}
    (h : Covered s bytes base walk plots others entries reach)
    (h' : Covered s bytes base walk' (plots ++ plots') others' (entries ++ entries') reach')
    {part : Part} (hmem : part ∈ walk.seen.parts) : part ∈ walk'.seen.parts := by
  rw [h.seen.mem_iff, List.mem_append] at hmem
  rw [h'.seen.mem_iff, List.map_append, List.map_append]
  rcases hmem with hmem | hmem
  · exact List.mem_append_left _ (List.mem_append_left _ hmem)
  · exact List.mem_append_right _ (List.mem_append_left _ hmem)

lemma before_outcome (h : Covered s bytes base walk plots others entries reach)
    (hscript : ctx.script = s) (hbase : ctx.codeBase = base) {start : Nat}
    (hstart : start < UInt32.size) (nextId : RecordId) (next : Part) :
    Outcome (before ctx nextId (ctx.codeBase + start) next walk)
      (fun _ walk' => ∃ plots' others',
        Covered s bytes base walk' (plots ++ plots') others' entries start) fun _ => True := by
  have hpos : walk.reader.offset = ctx.codeBase + reach := by rw [h.offset_eq, hbase]
  unfold before
  rw [bind_of_ok offset_apply]
  rcases Nat.lt_trichotomy reach start with hlt | rfl | hgt
  · rw [if_pos (by omega)]
    have hgap : Outcome (gap ctx nextId (ctx.codeBase + start) next walk)
        (fun _ walk' => ∃ plots' gap,
          Covered s bytes base walk' (plots ++ plots') (others ++ [gap]) entries start)
        fun _ => True := by
      unfold gap
      rw [bind_of_ok offset_apply,
        bind_of_ok (rfl : enoughSteps walk = .ok (walk.reader.remaining + 2) walk)]
      refine (body_outcome ctx _ _ hpos).bind fun code last hlast => ?_
      have hhere : walk.reader.offset - ctx.codeBase = reach := by omega
      rw [hhere, Nat.add_sub_cancel_left]
      refine h.gap hscript hbase hlast rfl ?_ ?_ rfl
      · exact UInt32.toNat_ofNat_of_lt' (hlt.trans hstart)
      · exact UInt32.toNat_ofNat_of_lt' hstart
    refine hgap.bind fun _ walk' hwalk' => ?_
    obtain ⟨plots', gap, hcovered⟩ := hwalk'
    exact ⟨plots', _, hcovered⟩
  · rw [if_neg (by omega), if_neg (by omega)]
    exact ⟨[], others, by rwa [List.append_nil]⟩
  · rw [if_neg (by omega), if_pos (by omega)]
    trivial

lemma table_outcome (h : Covered s bytes base walk plots others entries reach)
    {ref : TableRef} {t : Table} (ht : s.table? ref = some t) (hstart : t.start.toNat = reach) :
    Outcome (table ctx ref t walk)
      (fun _ walk' => Covered s bytes base walk' plots others (entries ++ [(ref, t)])
        (reach + t.payloadSize)) fun _ => True := by
  have hid : t.id = ref.id := Script.id_of_table? ht
  have hpayload (inner : Context) (hnew : .table ref ∉ walk.seen.parts) :
      Outcome ((do
          let values ← ofRead (payload inner t)
          note fun found => { found with tables := found.tables ++ [(ref, values)] } : Walking Unit)
          { walk with seen := ⟨.table ref :: walk.seen.parts⟩ })
        (fun _ walk' => Covered s bytes base walk' plots others (entries ++ [(ref, t)])
          (reach + t.payloadSize)) fun _ => True := by
    refine (ofRead_outcome (payload_consumes t)).bind fun values last hlast => ?_
    obtain ⟨count, rfl, -, rfl⟩ := hlast
    exact h.table ht hstart hnew
  unfold table
  rw [hid]
  refine (visit_outcome _).bind fun _ entered hentered => ?_
  obtain ⟨hnew, rfl⟩ := hentered
  obtain ⟨owner, id⟩ := ref
  cases owner with
  | script => exact hpayload ctx hnew
  | function owner =>
    refine Outcome.bind (ofExcept_outcome (ctx.script.requireFunction owner))
      fun f last hlast => ?_
    obtain ⟨-, rfl⟩ := hlast
    exact hpayload (ctx.push f) hnew

lemma part_cases (hscript : ctx.script = s) {scheduled : Scheduled} (hmem : scheduled ∈ s.schedule)
    (hnew : scheduled.part ∉ walk.seen.parts) (nextId : RecordId) :
    (∃ f ∈ s.functions.records, scheduled = .ofFunction f ∧
      part ctx nextId scheduled walk = (do
        let nextId ← before ctx nextId (ctx.codeBase + f.codeStart.toNat) (.function f.id)
        function ctx f (← enoughSteps)
        return nextId : Walking RecordId) walk) ∨
    ∃ ref t, s.table? ref = some t ∧ scheduled = .ofTable (ref, t) ∧
      part ctx nextId scheduled walk = (do
        let nextId ← before ctx nextId (ctx.codeBase + t.start.toNat) (.table ref)
        table ctx ref t
        return nextId : Walking RecordId) walk := by
  subst hscript
  rcases Script.mem_schedule_iff.mp hmem with ⟨f, hf, rfl⟩ | ⟨⟨ref, t⟩, hentry, rfl⟩
  · have hrequire : ctx.script.requireFunction f.id = .ok f :=
      Script.requireFunction_of_get? (ctx.script.functions.get?_of_mem hf)
    refine .inl ⟨f, hf, rfl, ?_⟩
    change part ctx nextId ⟨f.codeStart.toNat, f.codeEnd.toNat, .function f.id⟩ walk = _
    rw [part_function hnew, hrequire]
    rfl
  · have ht : ctx.script.table? ref = some t := Script.mem_allTables.mp hentry
    refine .inr ⟨ref, t, ht, rfl, ?_⟩
    change part ctx nextId ⟨t.start.toNat, t.start.toNat + t.payloadSize, .table ref⟩ walk = _
    rw [part_table hnew, Script.requireTable_of_table? ht]
    rfl

lemma part_outcome (h : Covered s bytes base walk plots others entries reach)
    (hscript : ctx.script = s) (hbase : ctx.codeBase = base) {scheduled : Scheduled}
    (hmem : scheduled ∈ s.schedule) (nextId : RecordId) :
    Outcome (part ctx nextId scheduled walk)
      (fun _ walk' => scheduled.part ∈ walk'.seen.parts ∧ ∃ plots' others' entries' reach',
        Covered s bytes base walk' (plots ++ plots') others' (entries ++ entries') reach')
      fun _ => True := by
  by_cases hseen : scheduled.part ∈ walk.seen.parts
  · rw [part_of_mem hseen]
    refine ⟨hseen, [], others, [], reach, ?_⟩
    rwa [List.append_nil, List.append_nil]
  rcases part_cases hscript hmem hseen nextId with ⟨f, hf, rfl, hpart⟩ | ⟨ref, t, ht, rfl, hpart⟩
  · have hget : s.functions.get? f.id = some f := s.functions.get?_of_mem hf
    rw [hpart]
    refine (before_outcome h hscript hbase f.codeStart.toNat_lt nextId _).bind
      fun id' middle hmiddle => ?_
    obtain ⟨more, others', hmiddle⟩ := hmiddle
    have hpos : middle.reader.offset = ctx.codeBase + f.codeStart.toNat := by
      rw [hmiddle.offset_eq, hbase]
    change Outcome ((function ctx f (middle.reader.remaining + 2) >>= fun _ => pure id') middle) _ _
    refine (function_outcome ctx f _ hpos).bind fun _ last hlast => ?_
    obtain ⟨plots', hcovered⟩ := hmiddle.function hscript hbase hget rfl hlast
    rw [List.append_assoc] at hcovered
    obtain ⟨n, -, -, rfl, -⟩ := hlast
    refine ⟨?_, more ++ plots', others', [], _, by rwa [List.append_nil]⟩
    exact List.mem_append_right _ List.mem_cons_self
  · rw [hpart]
    refine (before_outcome h hscript hbase t.start.toNat_lt nextId _).bind fun id' middle hmiddle => ?_
    obtain ⟨more, others', hmiddle⟩ := hmiddle
    change Outcome ((table ctx ref t >>= fun _ => pure id') middle) _ _
    refine (table_outcome hmiddle ht rfl).bind fun _ last hlast => ?_
    refine ⟨?_, more, others', [(ref, t)], _, hlast⟩
    have hlater : (ref, t) ∈ entries ++ [(ref, t)] := List.mem_append_right _ List.mem_cons_self
    rw [hlast.seen.mem_iff]
    exact List.mem_append_right _ (List.mem_map.mpr ⟨(ref, t), hlater, rfl⟩)

lemma parts_outcome {schedule : List Scheduled}
    (hschedule : ∀ scheduled ∈ schedule, scheduled ∈ s.schedule)
    (h : Covered s bytes base walk plots others entries reach) (hscript : ctx.script = s)
    (hbase : ctx.codeBase = base) (nextId : RecordId) :
    Outcome (schedule.foldlM (part ctx) nextId walk)
      (fun _ walk' => (∀ scheduled ∈ schedule, scheduled.part ∈ walk'.seen.parts) ∧
        ∃ plots' others' entries' reach',
          Covered s bytes base walk' (plots ++ plots') others' (entries ++ entries') reach')
      fun _ => True := by
  induction schedule generalizing walk plots others entries reach nextId with
  | nil =>
    refine ⟨List.forall_mem_nil _, [], others, [], reach, ?_⟩
    rwa [List.append_nil, List.append_nil]
  | cons scheduled schedule ih =>
    rw [List.forall_mem_cons] at hschedule
    rw [List.foldlM_cons]
    refine (part_outcome h hscript hbase hschedule.1 nextId).bind fun id' middle hmiddle => ?_
    obtain ⟨hself, more, others', moreEntries, reach', hmiddle⟩ := hmiddle
    refine (ih hschedule.2 hmiddle id').mono (fun _ last hlast => ?_) fun _ h => h
    obtain ⟨hrest, plots', others'', entries', reach'', hlast⟩ := hlast
    refine ⟨List.forall_mem_cons.mpr ⟨hmiddle.mem_of_mem hlast hself, hrest⟩, ?_⟩
    rw [List.append_assoc, List.append_assoc] at hlast
    exact ⟨_, _, _, _, hlast⟩

end Walking

lemma Read.region_outcome {s : Script} {r : Reader} {good : Findings → Reader → Prop}
    {bad : Error → Prop}
    (h : Outcome (Walking.region ((Context.new s).withCodeBase r.offset)
      ⟨r, .nothing, ⟨[], [], [], [], []⟩⟩) (fun found walk => good found walk.reader) bad) :
    Outcome (region s r) good bad := by
  unfold region
  dsimp only
  cases hrun : Walking.region ((Context.new s).withCodeBase r.offset)
      ⟨r, .nothing, ⟨[], [], [], [], []⟩⟩ with
  | ok found walk => exact h.of_ok hrun
  | error e walk => exact h.of_error hrun

end ScriptContainer
