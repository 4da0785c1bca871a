import Mathlib.Data.List.Flatten
import ScriptContainer.Proofs.Filling

/-!
# Recovering a script in place

Where all references are kept among the records of the declared part, reading the code region of a
script in place finds all code of declared functions and all values. Code of functions without
declaration is found in rows: each row makes one function, and without tables the code behind the last
declared function is taken for filler words.
-/

namespace ScriptContainer

section Bodies

lemma map_fst_forestBodies (roots : List Root) :
    ((forestBodies roots).map Prod.fst).Perm (forestIds roots) := by
  induction roots with
  | nil => exact .refl _
  | cons root roots ih =>
    rw [forestBodies, List.flatMap_cons, List.map_append, forestIds_cons]
    refine List.Perm.append ?_ ih
    rw [List.map_append, Root.ids]
    exact (List.perm_append_singleton _ _).trans (root.nesting.map_fst_bodies.cons _)

lemma Nesting.mem_bodies {n : Nesting} {start : Nat} {p : Plot} (h : p ∈ n.plots start) :
    (p.id, p.nesting.code) ∈ n.bodies := by
  induction n generalizing start with
  | done => cases h
  | step i rest ih => exact ih h
  | host i id inner rest ihi ihr =>
    rw [plots, List.mem_cons, List.mem_append] at h
    rw [bodies, List.mem_append, List.mem_cons]
    rcases h with rfl | h | h
    · exact .inr (.inl rfl)
    · exact .inl (ihi h)
    · exact .inr (.inr (ihr h))

lemma mem_forestBodies {s : Script} {roots : List Root} {start : Nat} {p : Plot}
    (hflat : ∀ root ∈ roots, s.functions.get? root.id = none → root.nesting.ids = [])
    (hheld : (s.functions.get? p.id).isSome) (h : p ∈ forestPlots start roots) :
    (p.id, p.nesting.code) ∈ forestBodies (s.rootsHeld roots) := by
  induction roots generalizing start with
  | nil => cases h
  | cons root roots ih =>
    obtain ⟨hroot, hroots⟩ := List.forall_mem_cons.mp hflat
    rw [forestPlots, Root.plots, List.mem_append, List.mem_cons] at h
    cases hget : s.functions.get? root.id with
    | none =>
      have htail : s.rootsHeld (root :: roots) = s.rootsHeld roots :=
        List.filter_cons_of_neg (by rw [hget]; exact Bool.false_ne_true)
      rw [htail]
      rcases h with (rfl | h) | h
      · rw [show (root.plot start).id = root.id from rfl, hget] at hheld
        cases hheld
      · have hid := List.mem_map_of_mem (f := Plot.id) h
        rw [Nesting.map_id_plots, hroot hget] at hid
        cases hid
      · exact ih hroots h
    | some f =>
      have hhead : s.rootsHeld (root :: roots) = root :: s.rootsHeld roots :=
        List.filter_cons_of_pos (by rw [hget]; rfl)
      rw [hhead, forestBodies, List.flatMap_cons, List.mem_append, List.mem_append,
        List.mem_singleton]
      rcases h with (rfl | h) | h
      · exact .inl (.inr rfl)
      · exact .inl (.inl (Nesting.mem_bodies h))
      · exact .inr (ih hroots h)

lemma map_id_filter_isInline (start : Nat) (roots : List Root) :
    ((forestPlots start roots).filter Plot.isInline).map Plot.id =
      roots.flatMap fun root => root.nesting.ids := by
  induction roots generalizing start with
  | nil => rfl
  | cons root roots ih =>
    have hself : (root.nesting.plots start).filter Plot.isInline = root.nesting.plots start :=
      List.filter_eq_self.mpr fun p hp => Nesting.isInline_of_mem_plots hp
    rw [forestPlots, Root.plots, List.filter_append, List.filter_cons_of_neg Bool.false_ne_true,
      hself, List.map_append, Nesting.map_id_plots, ih, List.flatMap_cons]

end Bodies

namespace Script

variable {t : Script} {vars : Registry Variable}

lemma allTables_bare :
    (t.bare vars).allTables = t.allTables.map fun entry => (entry.1, entry.2.emptied) := by
  simp only [allTables, bare, Registry.records_map, List.map_append, List.map_map, List.map_flatMap,
    List.flatMap_map, Function.bare]
  rfl

lemma schedule_bare : (t.bare vars).schedule = t.schedule := by
  unfold schedule
  rw [allTables_bare, List.map_map]
  congr 2
  exact List.map_map

lemma sameOutline_bare (hvars : ∀ id, id ∈ vars.ids ↔ id ∈ t.vars.ids) :
    t.SameOutline (t.bare vars) := by
  refine ⟨rfl, fun id => ?_, hvars, by rw [bare, Registry.ids_map]⟩
  have houtline (f : Function) : f.bare.outline = f.outline := by
    have htables : f.bare.tables.ids = f.tables.ids := by rw [Function.bare, Registry.ids_map]
    unfold Function.outline
    rw [htables]
    rfl
  unfold bare
  rw [Registry.get?_map, Option.map_map]
  exact congrArg (Option.map · _) (funext houtline)

/-- What recovering a script rests on: it is in place and clear, its references are kept among the
records of the declared part, and nothing belongs to functions without declaration, neither records nor
the place of other functions. -/
structure Recoverable (t : Script) (roots : List Root) (stop : Nat) : Prop where
  stands : t.Stands roots stop
  spells : ∀ i ∈ forestCode roots, t.Spells i
  code : t.shown.KeepsUnder t.body? (forestChains roots)
  owns : t.OwnsDeclared
  flat : ∀ root ∈ roots, t.shown.functions.get? root.id = none → root.nesting.ids = []
  types : ∀ entry ∈ t.allTables, entry.2.values.type = entry.2.type
  vars : ∀ entry ∈ t.allTables, ∀ refs, entry.2.values = .vars refs →
    ∀ ref ∈ refs, (t.shown.under entry.1.owner.scopes).findVariable (.id ref.id) = .ok ref

/-- Whether a function of this id is declared. -/
def declares (t : Script) (id : RecordId) : Bool := (t.shown.functions.get? id).isSome

/-- What becomes of the row behind the last declared function: a table ends it, and without tables
nothing does. -/
def endRow (t : Script) (row : Row) : List Row × Row :=
  if t.allTables = [] then ([], row) else ([row], ⟨row.stop, []⟩)

/-- The rows of code that belongs to no declared function: those before a declared function or a table,
and the one behind all of these. -/
def looseRows (t : Script) (roots : List Root) : List Row × Row :=
  let all := rows t.declares 0 ⟨0, []⟩ roots
  (all.1 ++ (t.endRow all.2).1, (t.endRow all.2).2)

end Script

namespace Script

lemma plots_looseRows (t : Script) (roots : List Root) :
    (t.looseRows roots).1.flatMap Row.plots ++ (t.looseRows roots).2.plots =
      (rootPlots 0 roots).filter fun p => !t.declares p.id := by
  have hend (row : Row) : (t.endRow row).1.flatMap Row.plots ++ (t.endRow row).2.plots = row.plots := by
    unfold endRow
    split
    · rfl
    · rw [List.flatMap_singleton]
      exact List.append_nil _
  rw [looseRows, List.flatMap_append, List.append_assoc, hend]
  exact plots_rows (Row.stop_nil 0)

lemma mem_rootPlots_of_mem_row {t : Script} {roots : List Root} {row : Row}
    (hrow : row ∈ (t.looseRows roots).1 ∨ row = (t.looseRows roots).2) {p : Plot} (hp : p ∈ row.plots) :
    p ∈ rootPlots 0 roots ∧ t.declares p.id = false := by
  have hmem : p ∈ (rootPlots 0 roots).filter fun p => !t.declares p.id := by
    rw [← t.plots_looseRows, List.mem_append, List.mem_flatMap]
    exact hrow.imp (fun hrow => ⟨row, hrow, hp⟩) fun hrow => by rwa [← hrow]
  rwa [List.mem_filter, Bool.not_eq_true'] at hmem

lemma declares_iff {t : Script} {f : Function} (hf : f ∈ t.functions.records) :
    t.declares f.id = f.isDeclared := by
  rw [declares, Bool.eq_iff_iff, Option.isSome_iff_exists]
  constructor
  · rintro ⟨g, hg⟩
    obtain ⟨hg, hdeclared⟩ := get?_shown.mp hg
    rwa [Registry.eq_of_get? hf rfl hg]
  · exact fun hdeclared => ⟨f, get?_shown.mpr ⟨t.functions.get?_of_mem hf, hdeclared⟩⟩

end Script

/-- The other code that was found: each row that something follows makes a function, unless it is empty,
and the words of the last one are followed by the filler words. -/
structure Findings.Collects (found : Findings) (t : Script) (roots : List Root) : Prop where
  gaps : ∃ id, Gaps t.shown.nextFunctionId (t.looseRows roots).1 found.gaps id
  trailing : ∃ ws, (t.looseRows roots).2.nesting.code.mapM (Instruction.encode t) = .ok ws ∧
    found.trailing = ws.flatten ++ t.padding.code

lemma Nesting.bytes_of_flat {n : Nesting} (h : n.ids = []) (write : Instruction .bound → List UInt8) :
    n.bytes write = n.code.flatMap write ∧ n.allCode = n.code := by
  induction n with
  | done => exact ⟨rfl, rfl⟩
  | step i rest ih =>
    obtain ⟨hbytes, hcode⟩ := ih h
    rw [bytes, hbytes, allCode, hcode]
    exact ⟨rfl, rfl⟩
  | host i id inner rest => cases h

lemma Script.exists_words {s : Script} {code : Body .bound} (h : ∀ i ∈ code, s.Encodes i) :
    ∃ ws, code.mapM (Instruction.encode s) = .ok ws ∧
      code.flatMap s.bytesOf = bytesOfWords ws.flatten := by
  induction code with
  | nil => exact ⟨[], rfl, rfl⟩
  | cons i code ih =>
    obtain ⟨⟨w, hw⟩, hcode⟩ := List.forall_mem_cons.mp h
    obtain ⟨ws, hws, hbytes⟩ := ih hcode
    refine ⟨w :: ws, ?_, ?_⟩
    · rw [List.mapM_cons, hw, ok_bind, hws]
      rfl
    · rw [List.flatMap_cons, hbytes, bytesOf, hw, List.flatten_cons, bytesOfWords, bytesOfWords,
        List.flatMap_append]

namespace Walking

variable {t : Script} {ctx : Context}

lemma holds_eq (h : t.shown.SameOutline ctx.script) : holds ctx = t.declares := by
  funext id
  have hsame := congrArg Option.isSome (h.functions id)
  rwa [Option.isSome_map, Option.isSome_map] at hsame

lemma filter_known_schedule (h : t.shown.SameOutline ctx.script) (howns : t.OwnsDeclared) :
    t.schedule.filter (known ctx) = t.shown.schedule := by
  refine (Script.schedule_shown howns (fun f hf => ?_) fun _ _ => rfl).symm
  change holds ctx f.id = f.isDeclared
  rw [holds_eq h, Script.declares_iff hf]

lemma filter_known_tables (ctx : Context) (entries : List (TableRef × Table)) :
    (entries.map Scheduled.ofTable).filter (known ctx) = entries.map Scheduled.ofTable := by
  refine List.filter_eq_self.mpr fun scheduled hmem => ?_
  obtain ⟨entry, -, rfl⟩ := List.mem_map.mp hmem
  rfl

end Walking

lemma Read.region_of_ok {s : Script} {r : Reader} {found : Findings} {walk : Walk}
    (h : Walking.region ((Context.new s).withCodeBase r.offset)
      ⟨r, .nothing, ⟨[], [], [], [], []⟩⟩ = .ok found walk) :
    Read.region s r = .ok found walk.reader := by
  unfold Read.region
  dsimp only
  rw [h]

namespace Script.Recoverable

variable {t : Script} {roots : List Root} {stop : Nat} {vars : Registry Variable} {ctx : Context}

variable (h : t.Recoverable roots stop)
include h

lemma nodup_forestIds : (forestIds roots).Nodup := h.stands.once.nodup_iff.mpr t.functions.nodup

lemma mem_inside_iff {f : Function} (hf : f ∈ t.functions.records) :
    (f.id ∈ roots.flatMap fun root => root.nesting.ids) ↔ f.isInline = true := by
  obtain ⟨p, hp, hid, -⟩ := h.stands.exists_plot hf
  obtain ⟨g, hg, -, -, hinline, -⟩ := h.stands.holds p hp
  obtain rfl : f = g := Registry.eq_of_get? hf hid.symm hg
  rw [hinline, ← map_id_filter_isInline 0, ← hid, List.mem_map]
  constructor
  · rintro ⟨q, hq, hqp⟩
    obtain ⟨hq, hqinline⟩ := List.mem_filter.mp hq
    have hn : ((forestPlots 0 roots).map Plot.id).Nodup := by
      rw [map_id_forestPlots]
      exact h.nodup_forestIds
    rwa [← List.inj_on_of_nodup_map hn hq hp hqp]
  · exact fun hp' => ⟨p, List.mem_filter.mpr ⟨hp, hp'⟩, rfl⟩

lemma exists_loose {row : Row} (hrow : row ∈ (t.looseRows roots).1 ∨ row = (t.looseRows roots).2)
    {p : Plot} (hp : p ∈ row.plots) : ∃ f ∈ t.functions.records, f.isDeclared = false ∧
      f.id = p.id ∧ f.span = p.span ∧ f.code = p.nesting.code := by
  obtain ⟨hroot, hhidden⟩ := mem_rootPlots_of_mem_row hrow hp
  obtain ⟨f, hf, hstart, hstop, -, hcode⟩ := h.stands.holds p (mem_forestPlots_of_mem_rootPlots hroot)
  have hid : f.id = p.id := Registry.id_of_get? hf
  have hf := Registry.mem_of_get? hf
  rw [← hid, declares_iff hf] at hhidden
  exact ⟨f, hf, hhidden, hid, Prod.ext hstart hstop, hcode⟩

lemma knows (hctx : ctx.script = t.shown.bare vars) : Walking.Knows ctx (forestPlots 0 roots) := by
  intro p hp g hg
  obtain ⟨f, hf, hstart, hstop, -⟩ := h.stands.holds p hp
  rw [hctx, Script.bare, Registry.get?_map, Option.map_eq_some_iff] at hg
  obtain ⟨g, hg, rfl⟩ := hg
  obtain rfl := Option.some.inj (hf.symm.trans (get?_shown.mp hg).1)
  exact ⟨hstart, hstop⟩

lemma findsTable (hscript : ctx.script = t.shown.bare vars)
    (hctx : (t.shown.under []).SameOutline ctx) {ref : TableRef} {table : Table}
    (ht : (ref, table) ∈ t.allTables) : Walking.FindsTable ctx ref table := by
  have hvars := h.vars _ ht
  refine ⟨?_, ?_, h.types _ ht, h.stands.values _ ht⟩
  · rw [hscript, ← Script.mem_allTables, Script.allTables_bare, allTables_shown h.owns]
    exact List.mem_map_of_mem (f := fun entry : TableRef × Table => (entry.1, entry.2.emptied)) ht
  · obtain ⟨owner, id⟩ := ref
    cases owner with
    | script =>
      intro refs hrefs var hvar
      rw [hctx.findVariable_eq]
      exact hvars refs hrefs var hvar
    | function owner =>
      intro g hg refs hrefs var hvar
      obtain ⟨f, hf, hfg⟩ := hctx.script.symm.exists_function hg
      have hf : t.shown.functions.get? owner = some f := hf
      have hentered : (t.shown.under ([] ++ [owner])).SameOutline (ctx.push g) := by
        rw [Script.under_append hf]
        exact hctx.push hfg.symm
      rw [hentered.findVariable_eq]
      exact hvars refs hrefs var hvar

/-- All roots can be read, those that the reader does not know outside all functions. -/
lemma readable (hctx : (t.shown.under []).SameOutline ctx) {root : Root} (hroot : root ∈ roots) :
    Walking.Readable t ctx root := by
  have hcode {i : Instruction .bound} (hi : i ∈ root.nesting.allCode) : i ∈ forestCode roots :=
    List.mem_flatMap.mpr ⟨root, hroot, hi⟩
  have hcallees := keepsCallee_of_keeps h.stands.follows hctx.script h.code
  refine ⟨fun i hi => h.spells i (hcode hi), fun i hi => hcallees i (hcode hi), fun hnone => ?_⟩
  have hhidden : t.shown.functions.get? root.id = none := by
    have hsame := hctx.script.functions root.id
    rw [hnone] at hsame
    exact Option.map_eq_none_iff.mp hsame.symm
  have hflat := h.flat root hroot hhidden
  exact ⟨hflat, Root.read_of_keeps h.stands.follows hctx h.code hroot hhidden hflat⟩

/-- Reading the roots finds the code of declared functions, and one row behind them that waits. -/
lemma roots_read (hscript : ctx.script = t.shown.bare vars)
    (hctx : (t.shown.under []).SameOutline ctx) {walk : Walk}
    (hstart : walk.reader.offset = ctx.codeBase) (hseen : walk.seen = .nothing) {rest : List UInt8}
    (hshows : walk.reader.Shows (forestBytes t.bytesOf roots ++ rest)) (nextId : RecordId) :
    let all := rows t.declares 0 ⟨0, []⟩ roots
    ∃ id' walk' new, Walking.Ready t ctx (· ∈ forestIds roots) (forestSize roots) walk' all.2 rest ∧
      Walking.Advances walk walk' (forestBodies (t.shown.rootsHeld roots))
        (roots.flatMap fun root => root.nesting.ids) new ∧
      Gaps nextId all.1 new id' ∧
      ctx.script.schedule.foldlM (Walking.part ctx) nextId walk =
        (t.allTables.map Scheduled.ofTable).foldlM (Walking.part ctx) id' walk' := by
  have hready : Walking.Ready t ctx (fun _ => False) 0 walk ⟨0, []⟩
      (forestBytes t.bytesOf roots ++ rest) := by
    refine ⟨Walking.waits_done, hstart, rfl, hshows, fun x _ => ?_, fun ref => ?_⟩
    · simp [hseen, Seen.nothing]
    · simp [hseen, Seen.nothing]
  have hruns := Walking.forest_reads h.stands.follows hready (fun root hroot => h.readable hctx hroot)
    (h.knows hscript) nextId
  unfold Walking.RunsOver at hruns
  rw [forestRead_of_keeps h.stands.follows hctx h.code,
    Walking.filter_known_schedule hctx.script h.owns, Walking.filter_known_tables] at hruns
  obtain ⟨id', walk', new, ⟨hready', hadvances, hgaps⟩, hrun⟩ := hruns
  rw [Walking.holds_eq hctx.script] at hready' hgaps
  rw [Nat.zero_add] at hready'
  refine ⟨id', walk', new, hready'.congr fun x => by simp, hadvances, hgaps, ?_⟩
  rw [hscript, Script.schedule_bare]
  exact hrun

end Script.Recoverable

namespace Walking

variable {t : Script} {ctx : Context} {walk : Walk} {row : Row} {seen : RecordId → Prop}
  {start stop : Nat}

/-- Behind the roots the tables are read, the row that waits before the first of them. Without tables
the row is left for filler words. -/
lemma tables_after (hready : Ready t ctx seen start walk row
      ((t.allTables.flatMap fun entry => entry.2.bytes) ++ bytesOfWords t.padding.code))
    (htiles : Tiles start (t.allTables.map fun entry => entry.2.span) stop)
    (hfinds : ∀ entry ∈ t.allTables, FindsTable ctx entry.1 entry.2)
    (hsize : walk.reader.bytes.size < 4 * UInt32.size) (nextId : RecordId) :
    ∃ id' walk' new ws, Gaps nextId (t.endRow row).1 new id' ∧
      (t.endRow row).2.nesting.code.mapM (Instruction.encode t) = .ok ws ∧
      (t.allTables.map Scheduled.ofTable).foldlM (part ctx) nextId walk = .ok id' walk' ∧
      walk'.reader.Shows (bytesOfWords (ws.flatten ++ t.padding.code)) ∧
      walk'.findings = { walk.findings with
        gaps := walk.findings.gaps ++ new
        tables := walk.findings.tables ++ t.allTables.map fun entry => (entry.1, entry.2.values) } := by
  obtain ⟨hwaits, hpos, rfl, hshows, -, hnew⟩ := hready
  have hnodup := t.nodup_allTables
  have hwords (ws : List UInt32) : bytesOfWords (ws ++ t.padding.code) =
      bytesOfWords ws ++ bytesOfWords t.padding.code := List.flatMap_append
  unfold Script.endRow
  generalize t.allTables = entries at *
  cases entries with
  | nil =>
    obtain ⟨hbytes, hcode⟩ := Nesting.bytes_of_flat hwaits.flat t.bytesOf
    have hencodes : ∀ i ∈ row.nesting.code, t.Encodes i := fun i hi =>
      (hwaits.spells i (by rwa [hcode])).encodes
    obtain ⟨ws, hws, hrow⟩ := Script.exists_words hencodes
    refine ⟨nextId, walk, [], ws, .nil, hws, rfl, ?_, ?_⟩
    · rwa [hwords, ← hrow, ← hbytes]
    · rw [List.map_nil, List.append_nil, List.append_nil]
  | cons first entries =>
    obtain ⟨id', walk', new, hfills, hrun⟩ := tables_read hwaits htiles hnodup
      (fun entry _ => hnew entry.1) hfinds hsize hpos hshows nextId
    refine ⟨id', _, new, [], hfills.gaps, rfl, hrun, ?_, ?_⟩
    · have hleft := hshows.skip.skip
      rw [Nesting.length_bytes fun i hi => (hwaits.spells i hi).encodes] at hleft
      rw [Walk.pastTables, hfills.walk]
      exact hleft
    · rw [Walk.pastTables, hfills.walk]

lemma region_apply {read : Walk} {id' : RecordId} {words : List UInt32}
    (hrun : ctx.script.schedule.foldlM (part ctx) ctx.script.nextFunctionId walk = .ok id' read)
    (hshows : read.reader.Shows (bytesOfWords words)) :
    region ctx walk = .ok { read.findings with trailing := words }
      ⟨read.reader.skip (4 * words.length), read.seen,
        { read.findings with trailing := words }⟩ := by
  have hend : read.reader.Shows (bytesOfWords words ++ []) := by rwa [List.append_nil]
  have hstop : read.reader.offset + 4 * words.length = read.reader.bytes.size := by
    have := hshows.length_eq
    rwa [length_bytesOfWords] at this
  have hwords := Read.wordsUntil_apply hend
  rw [hstop] at hwords
  have htrailing : ofRead (do Read.wordsUntil (← Read.length)) read =
      .ok words { read with reader := read.reader.skip (4 * words.length) } := ofRead_of_ok hwords
  unfold region
  rw [bind_of_ok hrun, bind_of_ok htrailing]
  rfl

end Walking

namespace Script.Recoverable

variable {t : Script} {roots : List Root} {stop : Nat} {vars : Registry Variable} {ctx : Context}
  {walk coded : Walk}

variable (h : t.Recoverable roots stop)
include h

lemma size_eq {seen : RecordId → Prop} {row : Row} {rest : List UInt8}
    (hstart : walk.reader.offset = ctx.codeBase)
    (hshows : walk.reader.Shows (forestBytes t.bytesOf roots ++ rest))
    (hready : Walking.Ready t ctx seen (forestSize roots) coded row rest) :
    coded.reader.bytes.size = walk.reader.bytes.size := by
  have hbefore := hshows.length_eq
  have hafter := hready.shows.length_eq
  have hplace := hready.place
  have hreach := hready.stop
  rw [List.length_append, Nesting.length_bytes fun i hi => (hready.waits.spells i hi).encodes]
    at hafter
  rw [List.length_append, length_forestBytes fun i hi => (h.spells i hi).encodes]
    at hbefore
  rw [Row.stop] at hreach
  omega

lemma complete {new : List (Placement × Function)}
    (hadvances : Walking.Advances walk coded (forestBodies (t.shown.rootsHeld roots))
      (roots.flatMap fun root => root.nesting.ids) new)
    (hempty : walk.findings = ⟨[], [], [], [], []⟩) (gaps : List (Placement × Function))
    (trailing : List UInt32) :
    { coded.findings with
      gaps, trailing
      tables := coded.findings.tables ++
        t.allTables.map fun entry => (entry.1, entry.2.values) : Findings }.Complete t.shown := by
  obtain ⟨hbodies, hinlined, -, htables⟩ := hadvances
  rw [hempty, List.nil_append] at hbodies
  rw [hempty] at hinlined htables
  refine ⟨fun f hf => ?_, ?_, fun f hf => ?_, ?_⟩
  · obtain ⟨p, hp, hid, -, -, hcode⟩ := h.stands.exists_plot (mem_shown.mp hf).1
    have hheld : (t.shown.functions.get? p.id).isSome := by
      rw [hid, Registry.get?_isSome_iff]
      exact List.mem_map_of_mem hf
    change (f.id, f.code) ∈ coded.findings.bodies
    rw [hbodies, hcode, ← hid]
    exact mem_forestBodies h.flat hheld hp
  · change (coded.findings.bodies.map Prod.fst).Nodup
    rw [hbodies]
    refine (map_fst_forestBodies _).nodup_iff.mpr (h.nodup_forestIds.sublist ?_)
    exact List.filter_sublist.flatMap _
  · change coded.findings.inlined.contains f.id = f.isInline
    rw [Bool.eq_iff_iff, List.contains_iff_mem, hinlined, ← h.mem_inside_iff (mem_shown.mp hf).1]
    simp
  · change coded.findings.tables ++ _ = _
    rw [htables, allTables_shown h.owns]
    rfl

/-- The code region gives all code, all values and the filler words. -/
theorem region_reads (hvars : ∀ id, id ∈ vars.ids ↔ id ∈ t.vars.ids) {r : Reader}
    (hsize : r.bytes.size < 4 * UInt32.size) (hshows : r.Shows (t.regionBytes roots)) :
    ∃ found r', Read.region (t.shown.bare vars) r = .ok found r' ∧ found.Complete t.shown ∧
      found.Collects t roots := by
  let ctx := (Context.new (t.shown.bare vars)).withCodeBase r.offset
  let walk : Walk := ⟨r, .nothing, ⟨[], [], [], [], []⟩⟩
  have hctx : (t.shown.under []).SameOutline ctx := ⟨Script.sameOutline_bare hvars, rfl⟩
  have hnextId : ctx.script.nextFunctionId = t.shown.nextFunctionId := by
    have hids : ctx.script.functions.ids = t.shown.functions.ids := by
      change (t.shown.bare vars).functions.ids = _
      rw [bare, Registry.ids_map]
    rw [nextFunctionId, nextFunctionId, hids]
  have hstart : walk.reader.offset = ctx.codeBase := rfl
  obtain ⟨id', coded, new, hready, hadvances, hnew, hrun⟩ :=
    h.roots_read rfl hctx hstart rfl hshows ctx.script.nextFunctionId
  have hbytes : coded.reader.bytes.size = r.bytes.size := h.size_eq hstart hshows hready
  obtain ⟨id'', read, more, ws, hmore, hws, hrun', hend, hfindings⟩ := Walking.tables_after hready
    h.stands.tables (fun entry hentry => h.findsTable rfl hctx hentry) (by rwa [hbytes]) id'
  refine ⟨_, _, Read.region_of_ok (Walking.region_apply (hrun.trans hrun') hend), ?_, ?_⟩
  · rw [hfindings]
    exact h.complete hadvances rfl _ _
  · refine ⟨⟨id'', ?_⟩, ws, hws, rfl⟩
    rw [hfindings, ← hnextId]
    dsimp only
    rw [hadvances.gaps]
    exact hnew.append hmore

end Script.Recoverable

end ScriptContainer
