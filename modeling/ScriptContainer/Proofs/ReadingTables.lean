import ScriptContainer.Proofs.ReadingRegion

/-!
# Reading tables back

Tables are read after all code, each in the scope of its owner. Code that still waits is read
before the first table; without tables it is taken for filler words.
-/

namespace ScriptContainer

/-- A walk after tables have been read. -/
def Walk.pastTables (walk : Walk) (entries : List (TableRef × Table)) : Walk where
  reader := walk.reader.skip (entries.flatMap fun entry => entry.2.bytes).length
  seen := ⟨(entries.map fun entry => Part.table entry.1).reverse ++ walk.seen.parts⟩
  findings := { walk.findings with
    tables := walk.findings.tables ++ entries.map fun entry => (entry.1, entry.2.values) }

namespace Walking

/-- Variables that are looked up by their numbers are found. -/
def FindsVars (ctx : Context) (values : TableValues VarRef) : Prop :=
  ∀ refs, values = .vars refs → ∀ ref ∈ refs, ctx.findVariable (.id ref.id) = .ok ref

lemma elements_reads {ctx : Context} {sizes : Nat → Prop} {t : Table} (htype : t.values.type = t.type)
    (hlength : t.length.toNat = t.values.size) (hvars : FindsVars ctx t.values) :
    Reads sizes (elements ctx t.emptied) t.values.payload t.values := by
  have htype' : t.emptied.type = t.values.type := htype.symm
  have hlength' : t.emptied.length.toNat = t.values.size := hlength
  unfold elements
  rw [htype', hlength']
  cases hvalues : t.values with
  | vars refs =>
    rw [TableValues.payload, List.flatMap_map]
    change Reads sizes (Read.times _ refs.length >>= fun refs =>
      pure (TableValues.vars refs)) _ _
    refine (Reads.times fun ref href => ?_).bind_pure (.pure (TableValues.vars refs))
    refine (Reads.word ref.id).bind_pure ?_
    rw [hvars refs hvalues ref href]
    exact .pure ref
  | ints values =>
    rw [TableValues.payload, List.flatMap_map]
    change Reads sizes (TableValues.ints <$> Read.times Read.signed values.length) _ _
    exact (Reads.times fun value _ => .signed value).map
  | floats values =>
    rw [TableValues.payload, List.flatMap_map]
    change Reads sizes (TableValues.floats <$> Read.times Read.single values.length) _ _
    exact (Reads.times fun value _ => .single value).map
  | bytes values =>
    have hfill : (4 - values.length % 4) % 4 = alignUp values.length - values.length := by
      unfold alignUp
      omega
    rw [TableValues.payload, hfill]
    change Reads sizes (Read.bytes values.length >>= fun values =>
      Read.bytes (alignUp _ - _) >>= fun _ => pure (TableValues.bytes values)) _ _
    let padding : List UInt8 := List.replicate (alignUp values.length - values.length) 0
    have hpadding : Reads sizes (Read.bytes (alignUp values.length - values.length)) padding
        padding := by
      have : Reads sizes (Read.bytes padding.length) padding padding := .bytes padding
      rwa [List.length_replicate] at this
    exact (Reads.bytes values).bind (hpadding.bind_pure (.pure (TableValues.bytes values)))

lemma payload_reads {ctx : Context} {sizes : Nat → Prop} {t : Table} (htype : t.values.type = t.type)
    (hlength : t.length.toNat = t.values.size) (hvars : FindsVars ctx t.values) :
    Reads sizes (payload ctx t.emptied) t.bytes t.values := by
  refine Reads.offset_bind fun here => (Reads.word _).bind ?_
  have hopening : t.type.openingWord = t.emptied.type.openingWord := rfl
  rw [if_neg (not_not.mpr hopening)]
  refine (elements_reads htype hlength hvars).bind (Reads.offset_bind fun here => ?_)
  refine (Reads.word _).bind_pure ?_
  rw [if_neg (not_not.mpr rfl)]
  exact .pure _

/-- The table is found in the script with its values left out, and its variables from the scope of
its owner. -/
structure FindsTable (ctx : Context) (ref : TableRef) (t : Table) : Prop where
  held : ctx.script.table? ref = some t.emptied
  vars : match ref.owner with
    | .script => FindsVars ctx t.values
    | .function id => ∀ f, ctx.script.functions.get? id = some f → FindsVars (ctx.push f) t.values
  type : t.values.type = t.type
  length : t.length.toNat = t.values.size

variable {s : Script} {ctx : Context} {walk : Walk} {row : Row}

lemma ofRead_of_ok {α : Type} {read : Read α} {x : α} {reader : Reader}
    (h : read walk.reader = .ok x reader) : ofRead read walk = .ok x { walk with reader } := by
  unfold ofRead
  rw [h]

lemma table_apply {ref : TableRef} {t : Table} {rest : List UInt8} (h : FindsTable ctx ref t)
    (hnew : .table ref ∉ walk.seen.parts) (hsize : walk.reader.bytes.size < 4 * UInt32.size)
    (hshows : walk.reader.Shows (t.bytes ++ rest)) :
    table ctx ref t.emptied walk = .ok () (walk.pastTables [(ref, t)]) := by
  obtain ⟨owner, id⟩ := ref
  obtain ⟨hheld, hvars, htype, hlength⟩ := h
  let entered : Walk := { walk with seen := ⟨.table ⟨owner, id⟩ :: walk.seen.parts⟩ }
  have hspans : Spans 0 walk.reader.bytes.size := ⟨Nat.zero_le _, hsize⟩
  have hfinish (inner : Context) (hfinds : FindsVars inner t.values) :
      ofRead (payload inner t.emptied) entered =
        .ok t.values { entered with reader := walk.reader.skip t.bytes.length } :=
    ofRead_of_ok (payload_reads htype hlength hfinds walk.reader rest hspans hshows)
  have hpast : walk.pastTables [(⟨owner, id⟩, t)] = { entered with
      reader := walk.reader.skip t.bytes.length
      findings := { walk.findings with
        tables := walk.findings.tables ++ [(⟨owner, id⟩, t.values)] } } := by
    simp only [Walk.pastTables, List.flatMap_singleton, List.map_singleton, entered]
    rfl
  rw [hpast]
  cases owner with
  | script =>
    have hid : t.emptied.id = id := Registry.id_of_get? hheld
    have hvisit : visit (.table ⟨.script, t.emptied.id⟩) walk = .ok () entered := by
      rw [hid]
      exact visit_apply hnew
    unfold table
    exact (bind_of_ok hvisit).trans (bind_of_ok (hfinish ctx hvars))
  | function owner =>
    obtain ⟨f, hf, hget⟩ := Option.bind_eq_some_iff.mp hheld
    have hid : t.emptied.id = id := Registry.id_of_get? hget
    have hvisit : visit (.table ⟨.function owner, t.emptied.id⟩) walk = .ok () entered := by
      rw [hid]
      exact visit_apply hnew
    have hrequire : ofExcept (ctx.script.requireFunction owner) entered = .ok f entered := by
      rw [Script.requireFunction_of_get? hf]
      rfl
    unfold table
    refine (bind_of_ok hvisit).trans ((bind_of_ok hrequire).trans ?_)
    exact bind_of_ok (hfinish (ctx.push f) (hvars f hf))

lemma part_table {start stop : Nat} {ref : TableRef} {nextId : RecordId}
    (h : .table ref ∉ walk.seen.parts) :
    part ctx nextId ⟨start, stop, .table ref⟩ walk = (do
      let nextId ← before ctx nextId (ctx.codeBase + start) (.table ref)
      let t ← ofExcept (ctx.script.requireTable ref)
      table ctx ref t
      return nextId : Walking RecordId) walk := by
  unfold part before
  rw [bind_of_ok isSeen_apply, if_neg fun hmem => h (of_decide_eq_true hmem), bind_assoc,
    bind_of_ok offset_apply, bind_of_ok offset_apply]
  split
  · rw [bind_assoc]
  · split <;> rfl

lemma table_reads (h : Waits s ctx walk row.nesting) {ref : TableRef} {t : Table} {rest : List UInt8}
    (hfinds : FindsTable ctx ref t) (hnew : .table ref ∉ walk.seen.parts)
    (hstart : t.start.toNat = row.stop) (hsize : walk.reader.bytes.size < 4 * UInt32.size)
    (hpos : walk.reader.offset = ctx.codeBase + row.start)
    (hshows : walk.reader.Shows (row.nesting.bytes s.bytesOf ++ (t.bytes ++ rest)))
    (nextId : RecordId) :
    ∃ id' walk' new, Fills nextId walk row id' walk' new ∧
      part ctx nextId (Scheduled.ofTable (ref, t)) walk =
        .ok id' (walk'.pastTables [(ref, t)]) := by
  obtain ⟨id', walk', new, hfills, hbefore⟩ := before_apply h hpos hshows nextId (.table ref)
  refine ⟨id', walk', new, hfills, ?_⟩
  have hreader : walk'.reader = walk.reader.skip row.nesting.size := by rw [hfills.walk]
  have hseen : walk'.seen = walk.seen := by rw [hfills.walk]
  have hrequire : ctx.script.requireTable ref = .ok t.emptied := by
    unfold Script.requireTable
    rw [hfinds.held]
  have hpast := hshows.skip
  rw [Nesting.length_bytes fun i hi => (h.spells i hi).encodes, ← hreader] at hpast
  have htable : table ctx ref t.emptied walk' = .ok () (walk'.pastTables [(ref, t)]) :=
    table_apply hfinds (by rwa [hseen]) (by rwa [hreader]) hpast
  have hscheduled : Scheduled.ofTable (ref, t) =
      ⟨row.stop, t.start.toNat + t.payloadSize, .table ref⟩ := by
    rw [← hstart]
    rfl
  rw [hscheduled, part_table hnew, bind_of_ok hbefore, hrequire]
  exact bind_of_ok htable

lemma Fills.eq_of_nil {id id' : RecordId} {start : Nat} {walk' : Walk}
    {new : List (Placement × Function)} (h : Fills id walk ⟨start, []⟩ id' walk' new) :
    id' = id ∧ walk' = walk := by
  obtain ⟨hgaps, rfl⟩ := h
  cases hgaps with
  | empty _ hrest =>
    cases hrest
    exact ⟨rfl, by rw [List.append_nil]; rfl⟩
  | gap hsize => exact absurd rfl hsize

lemma pastTables_pastTables (xs ys : List (TableRef × Table)) :
    (walk.pastTables xs).pastTables ys = walk.pastTables (xs ++ ys) := by
  simp only [Walk.pastTables, List.flatMap_append, List.length_append, Reader.skip_skip,
    List.map_append, List.reverse_append, List.append_assoc]

/-- Tables that follow each other are read one after the other, the first one after the row that
waits. -/
lemma tables_read {first : TableRef × Table} {entries : List (TableRef × Table)} {stop : Nat}
    (hwaits : Waits s ctx walk row.nesting)
    (htiles : Tiles row.stop ((first :: entries).map fun entry => entry.2.span) stop)
    (honce : ((first :: entries).map Prod.fst).Nodup)
    (hnew : ∀ entry ∈ first :: entries, .table entry.1 ∉ walk.seen.parts)
    (hfinds : ∀ entry ∈ first :: entries, FindsTable ctx entry.1 entry.2)
    (hsize : walk.reader.bytes.size < 4 * UInt32.size)
    (hpos : walk.reader.offset = ctx.codeBase + row.start) {rest : List UInt8}
    (hshows : walk.reader.Shows (row.nesting.bytes s.bytesOf ++
      ((first :: entries).flatMap (fun entry => entry.2.bytes) ++ rest)))
    (nextId : RecordId) :
    ∃ id' walk' new, Fills nextId walk row id' walk' new ∧
      ((first :: entries).map Scheduled.ofTable).foldlM (part ctx) nextId walk =
        .ok id' (walk'.pastTables (first :: entries)) := by
  induction entries generalizing first row walk nextId with
  | nil =>
    obtain ⟨hstart, -, -⟩ := htiles
    rw [List.flatMap_singleton] at hshows
    obtain ⟨id', walk', new, hfills, hpart⟩ := table_reads hwaits (hfinds _ List.mem_cons_self)
      (hnew _ List.mem_cons_self) hstart hsize hpos hshows nextId
    refine ⟨id', walk', new, hfills, ?_⟩
    rw [List.map_singleton, List.foldlM_cons]
    exact bind_of_ok hpart
  | cons second entries ih =>
    obtain ⟨hstart, -, htiles⟩ := htiles
    rw [List.map_cons, List.nodup_cons] at honce
    rw [List.forall_mem_cons] at hnew hfinds
    rw [List.flatMap_cons, List.append_assoc] at hshows
    obtain ⟨id', walk', new, hfills, hpart⟩ := table_reads hwaits hfinds.1 hnew.1 hstart hsize hpos
      hshows nextId
    have hlength := Table.length_bytes hfinds.1.type hfinds.1.length
    -- Behind the first table nothing waits.
    let behind : Row := ⟨first.2.start.toNat + first.2.payloadSize, []⟩
    let next : Walk := walk'.pastTables [first]
    have hreader : next.reader =
        (walk.reader.skip row.nesting.size).skip first.2.bytes.length := by
      simp only [next, Walk.pastTables, List.flatMap_singleton, hfills.walk]
    have hseen : next.seen.parts = .table first.1 :: walk.seen.parts := by
      simp only [next, Walk.pastTables, hfills.walk, List.map_singleton, List.reverse_singleton,
        List.singleton_append]
    have hunread : ∀ entry ∈ second :: entries, .table entry.1 ∉ next.seen.parts := by
      intro entry hentry hmem
      rw [hseen] at hmem
      rcases List.mem_cons.mp hmem with he | hmem
      · have : first.1 ∈ (second :: entries).map Prod.fst := by
          rw [← Part.table.inj he]
          exact List.mem_map_of_mem hentry
        exact honce.1 this
      · exact hnew.2 entry hentry hmem
    have hplace : next.reader.offset = ctx.codeBase + behind.start := by
      rw [hreader, Reader.skip, Reader.skip, hlength, hpos]
      simp only [behind, hstart, Row.stop, Nat.add_assoc]
    have hleft := hshows.skip.skip
    rw [Nesting.length_bytes fun i hi => (hwaits.spells i hi).encodes, ← hreader] at hleft
    have hbytes : next.reader.bytes.size < 4 * UInt32.size := by rwa [hreader]
    have hdone : Waits s ctx next behind.nesting := waits_done
    obtain ⟨id'', walk'', more, hmore, hrest⟩ := ih hdone htiles honce.2 hunread hfinds.2 hbytes hplace
      hleft id'
    obtain ⟨hid, hwalk⟩ := hmore.eq_of_nil
    rw [hid, hwalk, pastTables_pastTables] at hrest
    refine ⟨id', walk', new, hfills, ?_⟩
    rw [List.map_cons, List.foldlM_cons]
    exact (bind_of_ok hpart).trans hrest

end Walking

end ScriptContainer
