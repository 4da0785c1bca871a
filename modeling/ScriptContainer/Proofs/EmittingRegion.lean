import ScriptContainer.Proofs.Emitting

/-!
# Writing the code region

Following its schedule, a script in place is written root by root and then table by table. Every
part is written once and at its offset, so writing fails only for a reference to a record that the
script does not hold, or for a table whose values are not of its type.
-/

namespace ScriptContainer

/-- The failure to find a record, or values of another type. -/
def Error.IsInput (e : Error) : Prop := e.IsUnknown ∨ ∃ cause, e = .typeMismatch cause

lemma Script.Encodes.four_dvd_size {s : Script} {i : Instruction .bound} (h : s.Encodes i) :
    4 ∣ i.size := by
  obtain ⟨ws, hws⟩ := h
  exact ⟨ws.length, (Instruction.length_of_encode hws).symm⟩

lemma Nesting.four_dvd_size {s : Script} {n : Nesting} (h : ∀ i ∈ n.allCode, s.Encodes i) :
    4 ∣ n.size := by
  induction n with
  | done => exact Nat.dvd_zero 4
  | step i rest ih =>
    rw [allCode, List.forall_mem_cons] at h
    exact Nat.dvd_add h.1.four_dvd_size (ih h.2)
  | host i id inner rest ihi ihr =>
    rw [allCode, List.forall_mem_cons, List.forall_mem_append] at h
    exact Nat.dvd_add (Nat.dvd_add h.1.four_dvd_size (ihi h.2.1)) (ihr h.2.2)

namespace TableValues

/-- The bytes of the elements, with zero bytes up to a multiple of four. -/
def payload : TableValues VarRef → List UInt8
  | vars refs => (refs.map VarRef.id).flatMap bytesOfWord
  | ints values => (values.map Int32.toUInt32).flatMap bytesOfWord
  | floats values => (values.map Number.Single.bits).flatMap bytesOfWord
  | bytes values => values ++ List.replicate ((4 - values.length % 4) % 4) 0

lemma length_payload (values : TableValues VarRef) :
    values.payload.length = alignUp (values.size * values.type.elementSize) := by
  unfold alignUp
  cases values with
  | bytes values =>
    simp only [payload, size, type, ElementType.elementSize, List.length_append,
      List.length_replicate]
    omega
  | _ =>
    simp only [payload, size, type, ElementType.elementSize, length_flatMap_bytesOfWord,
      List.length_map]
    omega

end TableValues

namespace Table

/-- The bytes of the payload with its opening and closing words. -/
def bytes (t : Table) : List UInt8 :=
  bytesOfWord t.type.openingWord ++ (t.values.payload ++ bytesOfWord Marker.tableClose)

lemma length_bytes {t : Table} (h : t.values.type = t.type) (hl : t.length.toNat = t.values.size) :
    t.bytes.length = t.payloadSize := by
  rw [bytes, List.length_append, List.length_append, TableValues.length_payload, payloadSize, hl, h]
  simp only [bytesOfWord, List.length_cons, List.length_nil]
  omega

lemma four_dvd_payloadSize (t : Table) : 4 ∣ t.payloadSize := by
  unfold payloadSize alignUp
  omega

/-- The values are of the type of the table, and its variables are records of the script. -/
def Encodes (s : Script) (t : Table) : Prop :=
  t.values.type = t.type ∧ ∀ refs, t.values = .vars refs → ∀ ref ∈ refs, (s.var? ref).isSome

end Table

namespace Emit

variable {s : Script} {t : Table} {e : Emission}

lemma check_var_yields (ref : VarRef) :
    YieldsIf (s.check (.variable ref)) ref.id ((s.var? ref).isSome = true) Error.IsInput := by
  unfold Script.check
  split
  case isTrue h => exact ⟨rfl, h⟩
  case isFalse h => exact ⟨.inl ⟨_, _, rfl⟩, h⟩

lemma check_vars_yields (refs : List VarRef) :
    YieldsIf ((refs.mapM fun ref => (s.check (.variable ref) : Emit RecordId)) e)
      (refs.map VarRef.id, e) (∀ ref ∈ refs, (s.var? ref).isSome = true) Error.IsInput := by
  induction refs with
  | nil => exact ⟨rfl, fun _ h => by cases h⟩
  | cons ref refs ih =>
    have hcheck : YieldsIf ((s.check (.variable ref) : Emit RecordId) e) (ref.id, e) _ _ :=
      (check_var_yields ref).andReturn fun _ => rfl
    rw [List.mapM_cons, List.forall_mem_cons]
    exact hcheck.bind fun _ => ih.bindReturn fun _ => rfl

lemma append_align_apply (values : List UInt8) (hpos : 4 ∣ e.writer.position) :
    (modify fun e => { e with writer := (e.writer.append values).align } : Emit Unit) e =
      .ok ((), e.extend (TableValues.bytes values).payload [] [] []) := by
  have hfill : (4 - (e.writer.append values).position % 4) % 4 = (4 - values.length % 4) % 4 := by
    rw [Writer.position_append]
    omega
  change Except.ok ((), { e with writer := (e.writer.append values).align }) = _
  rw [Writer.align, hfill, Writer.append_append]
  rfl

/-- What is written between the opening word of a table and its closing word. -/
def payload (s : Script) : TableValues VarRef → Emit Unit
  | .vars refs => do words (← refs.mapM fun ref => s.check (.variable ref))
  | .ints values => words (values.map Int32.toUInt32)
  | .floats values => words (values.map Number.Single.bits)
  | .bytes values => modify fun e => { e with writer := (e.writer.append values).align }

lemma payload_yields (values : TableValues VarRef) (hpos : 4 ∣ e.writer.position) :
    YieldsIf (payload s values e) ((), e.extend values.payload [] [] [])
      (∀ refs, values = .vars refs → ∀ ref ∈ refs, (s.var? ref).isSome = true) Error.IsInput := by
  cases values with
  | vars refs =>
    refine ((check_vars_yields refs).bindReturn fun _ => words_apply _).congr rfl ?_
    exact ⟨fun h _ he => TableValues.vars.inj he ▸ h, fun h => h refs rfl⟩
  | ints values =>
    rw [payload, words_apply]
    exact ⟨rfl, fun refs he => by cases he⟩
  | floats values =>
    rw [payload, words_apply]
    exact ⟨rfl, fun refs he => by cases he⟩
  | bytes values =>
    rw [payload, append_align_apply values hpos]
    exact ⟨rfl, fun refs he => by cases he⟩

lemma table_eq (h : t.values.type = t.type) :
    table s t = (do
      words [t.type.openingWord]
      payload s t.values
      words [Marker.tableClose]) := by
  unfold table
  rw [if_neg (not_not.mpr h)]
  cases t.values with
  | vars refs => rw [payload, bind_assoc]
  | _ => rfl

lemma table_yields (hpos : 4 ∣ e.writer.position) :
    YieldsIf (table s t e) ((), e.extend t.bytes [] [] []) (t.Encodes s) Error.IsInput := by
  by_cases htype : t.values.type = t.type
  case neg =>
    unfold table
    rw [if_pos htype]
    exact ⟨.inr ⟨_, rfl⟩, fun h => htype h.1⟩
  rw [table_eq htype, stateT_bind_of_ok (words_apply _)]
  have hopened : 4 ∣ (e.extend ([t.type.openingWord].flatMap bytesOfWord) [] [] []).writer.position := by
    simp only [Emission.extend, Writer.position_append, length_flatMap_bytesOfWord]
    omega
  refine ((payload_yields t.values hopened).bindReturn fun _ => words_apply _).congr ?_
    (and_iff_right htype).symm
  refine Prod.ext rfl ?_
  simp only [Emission.extend_extend, List.flatMap_singleton, List.append_assoc]
  rfl

end Emit

namespace Root

/-- The scopes of the function and of those that stand inside it. -/
def chains (root : Root) : List Chain := ⟨root.id, [root.id]⟩ :: root.nesting.chains [root.id]

/-- The ends of the instructions of the function and of those that stand inside it. -/
def ends (start : Nat) (root : Root) : List Ends :=
  root.nesting.ends start ++ [⟨root.id, (root.nesting.stops start).map UInt32.ofNat⟩]

end Root

/-- The instructions of all functions of roots. -/
def forestCode (roots : List Root) : Body .bound := roots.flatMap fun root => root.nesting.allCode

def forestBytes (write : Instruction .bound → List UInt8) (roots : List Root) : List UInt8 :=
  roots.flatMap fun root => root.nesting.bytes write

/-- The scopes of all functions of roots. -/
def forestChains (roots : List Root) : List Chain := roots.flatMap Root.chains

/-- The ends of the instructions of all functions of roots that follow each other. -/
def forestEnds : Nat → List Root → List Ends
  | _, [] => []
  | start, root :: rest => root.ends start ++ forestEnds (start + root.nesting.size) rest

lemma length_forestBytes {s : Script} {roots : List Root} (h : ∀ i ∈ forestCode roots, s.Encodes i) :
    (forestBytes s.bytesOf roots).length = forestSize roots := by
  induction roots with
  | nil => rfl
  | cons root roots ih =>
    rw [forestCode, List.flatMap_cons, List.forall_mem_append] at h
    have hrest := ih h.2
    rw [forestBytes] at hrest ⊢
    rw [List.flatMap_cons, List.length_append, hrest, Nesting.length_bytes h.1, forestSize_cons]

lemma four_dvd_forestSize {s : Script} {roots : List Root} (h : ∀ i ∈ forestCode roots, s.Encodes i) :
    4 ∣ forestSize roots := by
  induction roots with
  | nil => exact Nat.dvd_zero 4
  | cons root roots ih =>
    rw [forestCode, List.flatMap_cons, List.forall_mem_append] at h
    rw [forestSize_cons]
    exact Nat.dvd_add (Nesting.four_dvd_size h.1) (ih h.2)

namespace Emit

variable {ctx : Context} {start stop : Nat} {e : Emission}

lemma part_of_mem {scheduled : Scheduled} (h : scheduled.part ∈ e.seen.parts) :
    part ctx scheduled e = .ok ((), e) := by
  unfold part
  rw [stateT_bind_of_ok isSeen_apply, if_pos (decide_eq_true h)]
  rfl

lemma part_apply {p : Part} (h : p ∉ e.seen.parts) (hfits : start < UInt32.size)
    (hpos : e.writer.position = ctx.codeBase + start) :
    part ctx ⟨start, stop, p⟩ e = (match p with
      | .function id => do
        let f ← ctx.script.requireFunction id
        function ctx (ctx.script.functions.size + 1) f
      | .table ref => do
        visit (.table ref)
        let t ← ctx.script.requireTable ref
        table ctx.script t : Emit Unit) e := by
  have hstart : (UInt32.ofNat start).toNat = start := UInt32.toNat_ofNat_of_lt' hfits
  unfold part
  dsimp only
  rw [stateT_bind_of_ok isSeen_apply, if_neg fun hd => h (of_decide_eq_true hd),
    stateT_bind_of_ok (expect_apply (by rw [hpos, hstart]))]
  cases p <;> rfl

lemma root_yields {root : Root} (hscopes : ctx.scopes = [])
    (hseen : .function root.id ∉ e.seen.parts)
    (hproper : root.nesting.Proper ctx.script.body?
      fun x => x = root.id ∨ .function x ∈ e.seen.parts)
    (hplots : ∀ p ∈ root.plots start, ctx.script.Holds p)
    (hheight : root.nesting.height ≤ ctx.script.functions.size)
    (hfits : start + root.nesting.size < UInt32.size)
    (hpos : e.writer.position = ctx.codeBase + start) :
    YieldsIf (part ctx (root.plot start).scheduled e)
      ((), e.extend (root.nesting.bytes ctx.script.bytesOf) (root.ids.map .function)
        root.chains (root.ends start))
      (∀ i ∈ root.nesting.allCode, ctx.script.Encodes i) Error.IsInput := by
  obtain ⟨hself, hguests⟩ := List.forall_mem_cons.mp hplots
  obtain ⟨f, hf, -, hstop, -, hcode⟩ := hself
  have hid : f.id = root.id := Registry.id_of_get? hf
  have hrequire : ctx.script.requireFunction root.id = .ok f := Script.requireFunction_of_get? hf
  have hpart : part ctx (root.plot start).scheduled e =
      function ctx (ctx.script.functions.size + 1) f e := by
    refine (part_apply hseen (by omega) hpos).trans ?_
    exact stateT_bind_of_ok (lift_of_ok hrequire)
  have hchain : [root.id] = ctx.scopes.reverse.map Function.id ++ [f.id] := by rw [hscopes, hid]; rfl
  have hfunction := (writes root.nesting).function ctx hchain hcode hstop
    (Nat.lt_succ_of_le hheight) hfits hpos (by rwa [hid]) (by rwa [hid]) hguests
  rw [hpart]
  refine (hfunction.mono fun _ h => .inl h).congr ?_ Iff.rfl
  rw [hid]
  rfl

/-- Following a schedule writes its roots, and goes on with what is left of it. -/
lemma forest_yields {seen : RecordId → Prop} {tail schedule : List Scheduled} {roots : List Root}
    (h : Follows ctx.script.body? tail seen start schedule roots) {answer : Unit × Emission}
    {condition : Prop}
    (hscopes : ctx.scopes = []) (hseen : ∀ x, seen x ↔ .function x ∈ e.seen.parts)
    (hplots : ∀ p ∈ forestPlots start roots, ctx.script.Holds p)
    (hheight : ∀ root ∈ roots, root.nesting.height ≤ ctx.script.functions.size)
    (hfits : start + forestSize roots < UInt32.size)
    (hpos : e.writer.position = ctx.codeBase + start)
    (htail : (∀ i ∈ forestCode roots, ctx.script.Encodes i) →
      YieldsIf (tail.forM (part ctx)
        (e.extend (forestBytes ctx.script.bytesOf roots) ((forestIds roots).map .function)
          (forestChains roots) (forestEnds start roots))) answer condition Error.IsInput) :
    YieldsIf (schedule.forM (part ctx) e) answer
      ((∀ i ∈ forestCode roots, ctx.script.Encodes i) ∧ condition) Error.IsInput := by
  induction h generalizing e with
  | done =>
    have hnone : ∀ i ∈ forestCode [], ctx.script.Encodes i := fun i hi => by cases hi
    have hdone := htail hnone
    simp only [forestBytes, forestIds, forestChains, forestEnds, List.flatMap_nil, List.map_nil,
      Emission.extend_nil] at hdone
    exact hdone.congr rfl (and_iff_right hnone).symm
  | @skip seen start a b id rest roots hid _ ih =>
    have hmem : Part.function id ∈ e.seen.parts := (hseen id).mp hid
    change YieldsIf ((part ctx ⟨a, b, .function id⟩ >>= fun _ => rest.forM (part ctx)) e) _ _ _
    rw [stateT_bind_of_ok (part_of_mem hmem)]
    exact ih hseen hplots hheight hfits hpos htail
  | @root seen start root rest roots hid _ hproper _ ih =>
    rw [forestPlots, List.forall_mem_append] at hplots
    rw [List.forall_mem_cons] at hheight
    rw [forestSize_cons, ← Nat.add_assoc] at hfits
    have hroot := root_yields hscopes (fun h => hid ((hseen _).mpr h))
      (hproper.congr fun x => by rw [hseen]) hplots.1 hheight.1 (by omega) hpos
    have hall : (∀ i ∈ forestCode (root :: roots), ctx.script.Encodes i) ↔
        (∀ i ∈ root.nesting.allCode, ctx.script.Encodes i) ∧
          ∀ i ∈ forestCode roots, ctx.script.Encodes i := List.forall_mem_append
    change YieldsIf ((part ctx (root.plot start).scheduled >>= fun _ => rest.forM (part ctx)) e) _ _ _
    rw [hall, and_assoc]
    refine hroot.bind fun hcode => ih (fun x => ?_) hplots.2 hheight.2 hfits ?_ fun hrest => ?_
    · simp [Emission.extend, hseen]
    · change (e.writer.append _).position = _
      rw [Writer.position_append, Nesting.length_bytes hcode, hpos, Nat.add_assoc]
    · have hboth := htail (hall.mpr ⟨hcode, hrest⟩)
      rw [Emission.extend_extend, ← List.map_append]
      exact hboth

lemma tables_yields {entries : List (TableRef × Table)} {stop : Nat}
    (htiles : Tiles start (entries.map fun entry => entry.2.span) stop)
    (honce : (entries.map Prod.fst).Nodup)
    (hnew : ∀ entry ∈ entries, .table entry.1 ∉ e.seen.parts)
    (hheld : ∀ entry ∈ entries, ctx.script.table? entry.1 = some entry.2)
    (hvalues : ∀ entry ∈ entries, entry.2.length.toNat = entry.2.values.size)
    (hfits : stop < UInt32.size) (hbase : 4 ∣ e.writer.position)
    (hpos : e.writer.position = ctx.codeBase + start) :
    YieldsIf ((entries.map Scheduled.ofTable).forM (part ctx) e)
      ((), e.extend (entries.flatMap fun entry => entry.2.bytes)
        (entries.map fun entry => .table entry.1) [] [])
      (∀ entry ∈ entries, entry.2.Encodes ctx.script) Error.IsInput := by
  induction entries generalizing start e with
  | nil => exact ⟨Prod.ext rfl e.extend_nil.symm, fun _ h => by cases h⟩
  | cons entry entries ih =>
    obtain ⟨ref, t⟩ := entry
    obtain ⟨hstart, hle, htiles⟩ := htiles
    obtain ⟨hnew, hnews⟩ := List.forall_mem_cons.mp hnew
    obtain ⟨hheld, hhelds⟩ := List.forall_mem_cons.mp hheld
    obtain ⟨hvalue, hvalues⟩ := List.forall_mem_cons.mp hvalues
    rw [List.map_cons, List.nodup_cons] at honce
    have hbound : t.start.toNat + t.payloadSize ≤ stop := htiles.start_le_stop
    let entered := e.extend [] [.table ref] [] []
    have hentered : entered.writer = e.writer := Writer.append_nil _
    have hrequire : ctx.script.requireTable ref = .ok t := Script.requireTable_of_table? hheld
    have hpart : part ctx (Scheduled.ofTable (ref, t)) e = table ctx.script t entered := by
      refine (part_apply hnew (by omega) (hstart ▸ hpos)).trans ?_
      dsimp only
      rw [stateT_bind_of_ok (visit_apply hnew), stateT_bind_of_ok (lift_of_ok hrequire)]
    change YieldsIf ((part ctx (Scheduled.ofTable (ref, t)) >>= fun _ =>
      (entries.map Scheduled.ofTable).forM (part ctx)) e) _ _ _
    have htable : YieldsIf (table ctx.script t entered) _ _ _ := table_yields (by rwa [hentered])
    rw [← hpart] at htable
    have hposition (hencodes : t.Encodes ctx.script) :
        (entered.extend t.bytes [] [] []).writer.position = e.writer.position + t.payloadSize := by
      change (entered.writer.append t.bytes).position = _
      rw [Writer.position_append, Table.length_bytes hencodes.1 hvalue, hentered]
    rw [List.forall_mem_cons]
    refine (htable.bind fun hencodes => ih htiles honce.2 ?_ hhelds hvalues ?_ ?_).congr ?_ Iff.rfl
    · intro entry hentry hmem
      rcases List.mem_cons.mp hmem with he | hmem
      · have : ref ∈ entries.map Prod.fst := by
          rw [← Part.table.inj he]
          exact List.mem_map_of_mem hentry
        exact honce.1 this
      · exact hnews entry hentry hmem
    · rw [hposition hencodes]
      exact Nat.dvd_add hbase t.four_dvd_payloadSize
    · rw [hposition hencodes, hpos, ← hstart, Nat.add_assoc]
    · refine Prod.ext rfl ?_
      simp only [entered, Emission.extend_extend, List.nil_append]
      rfl

end Emit

namespace Script

/-- The bytes of the code region of a script in place with the roots `roots`. -/
def regionBytes (s : Script) (roots : List Root) : List UInt8 :=
  forestBytes s.bytesOf roots ++
    ((s.allTables.flatMap fun entry => entry.2.bytes) ++ s.padding.code.flatMap bytesOfWord)

/-- What is written of a script in place with the roots `roots`. -/
def written (s : Script) (roots : List Root) (w : Writer) : Emission :=
  let nothing : Emission := ⟨w, .nothing, .empty, .empty⟩
  nothing.extend (s.regionBytes roots)
    ((forestIds roots).map .function ++ s.allTables.map fun entry => .table entry.1)
    (forestChains roots) (forestEnds 0 roots)

variable {s : Script} {roots : List Root} {stop : Nat}

lemma Stands.height_le (h : s.Stands roots stop) {root : Root} (hroot : root ∈ roots) :
    root.nesting.height ≤ s.functions.size := by
  have hsize : (forestIds roots).length = s.functions.size := by
    rw [h.once.length_eq, Registry.ids, List.length_map, Registry.size]
  have hsub : root.ids.Sublist (forestIds roots) := by
    rw [forestIds, List.flatMap_def]
    exact List.sublist_flatten_of_mem (List.mem_map_of_mem hroot)
  have hlength := hsub.length_le
  have hheight := root.nesting.height_le
  rw [Root.ids, List.length_cons] at hlength
  omega

lemma length_tableBytes {start : Nat} {entries : List (TableRef × Table)}
    (h : Tiles start (entries.map fun entry => entry.2.span) stop)
    (hlength : ∀ entry ∈ entries, entry.2.bytes.length = entry.2.payloadSize) :
    start + (entries.flatMap fun entry => entry.2.bytes).length = stop := by
  induction entries generalizing start with
  | nil => exact h
  | cons first entries ih =>
    obtain ⟨rfl, -, h⟩ := h
    obtain ⟨hfirst, hlength⟩ := List.forall_mem_cons.mp hlength
    rw [List.flatMap_cons, List.length_append, hfirst, ← Nat.add_assoc]
    exact ih h hlength

lemma four_dvd_tableBytes {entries : List (TableRef × Table)}
    (hlength : ∀ entry ∈ entries, entry.2.bytes.length = entry.2.payloadSize) :
    4 ∣ (entries.flatMap fun entry => entry.2.bytes).length := by
  induction entries with
  | nil => exact Nat.dvd_zero 4
  | cons first entries ih =>
    obtain ⟨hfirst, hlength⟩ := List.forall_mem_cons.mp hlength
    rw [List.flatMap_cons, List.length_append, hfirst]
    exact Nat.dvd_add first.2.four_dvd_payloadSize (ih hlength)

lemma Stands.length_tables (h : s.Stands roots stop)
    (htables : ∀ entry ∈ s.allTables, entry.2.Encodes s) :
    ∀ entry ∈ s.allTables, entry.2.bytes.length = entry.2.payloadSize :=
  fun entry he => Table.length_bytes (htables entry he).1 (h.values entry he)

lemma Stands.length_regionBytes (h : s.Stands roots stop)
    (hcode : ∀ i ∈ forestCode roots, s.Encodes i)
    (htables : ∀ entry ∈ s.allTables, entry.2.Encodes s) :
    (s.regionBytes roots).length = stop + 4 * s.padding.code.length ∧ 4 ∣ stop := by
  have hlengths := h.length_tables htables
  have htotal := length_tableBytes h.tables hlengths
  have hforest := four_dvd_forestSize hcode
  have hdvd := four_dvd_tableBytes hlengths
  rw [regionBytes, List.length_append, List.length_append, length_forestBytes hcode,
    length_flatMap_bytesOfWord]
  omega

/-- All code and all tables can be written. -/
def EncodesAll (s : Script) (roots : List Root) : Prop :=
  (∀ i ∈ forestCode roots, s.Encodes i) ∧ ∀ entry ∈ s.allTables, entry.2.Encodes s

lemma Stands.schedule_yields (h : s.Stands roots stop) {ctx : Context} (hctx : ctx.script = s)
    (hscopes : ctx.scopes = []) {e : Emission} (hseen : e.seen = .nothing)
    (hpos : e.writer.position = ctx.codeBase) (hbase : 4 ∣ ctx.codeBase) :
    YieldsIf (s.schedule.forM (Emit.part ctx) e)
      ((), e.extend
        (forestBytes s.bytesOf roots ++ s.allTables.flatMap fun entry => entry.2.bytes)
        ((forestIds roots).map .function ++ s.allTables.map fun entry => .table entry.1)
        (forestChains roots) (forestEnds 0 roots))
      (s.EncodesAll roots) Error.IsInput := by
  subst hctx
  have hfits := h.fits
  have hcodeStop := h.tables.start_le_stop
  refine Emit.forest_yields h.follows hscopes (fun x => ?_) h.holds (fun root => h.height_le)
    (by omega) hpos fun hcode => ?_
  · simp [hseen, Seen.nothing]
  · let coded := e.extend (forestBytes ctx.script.bytesOf roots) ((forestIds roots).map .function)
      (forestChains roots) (forestEnds 0 roots)
    have hposition : coded.writer.position = ctx.codeBase + forestSize roots := by
      change (e.writer.append _).position = _
      rw [Writer.position_append, length_forestBytes hcode, hpos]
    have hnew : ∀ entry ∈ ctx.script.allTables, .table entry.1 ∉ coded.seen.parts := by
      intro entry _ hmem
      simp [coded, Emission.extend, hseen, Seen.nothing] at hmem
    have haligned : 4 ∣ coded.writer.position := by
      rw [hposition]
      exact Nat.dvd_add hbase (four_dvd_forestSize hcode)
    refine (Emit.tables_yields h.tables ctx.script.nodup_allTables hnew
      (fun entry => mem_allTables.mp) h.values h.fits haligned hposition).congr ?_ Iff.rfl
    rw [Emission.extend_extend, List.append_nil, List.append_nil]

/-- Writing a script in place fails for a missing record or values of another type, or writes
every part where it stands. -/
theorem Stands.emit_yields (h : s.Stands roots stop) {w : Writer} (hw : 4 ∣ w.position) :
    YieldsIf (s.emit w) (s.written roots w) (s.EncodesAll roots) Error.IsInput := by
  let ctx := (Context.new s).withCodeBase w.position
  let nothing : Emission := ⟨w, .nothing, .empty, .empty⟩
  have hscheduled : YieldsIf (s.schedule.forM (Emit.part ctx) nothing) _ _ _ :=
    h.schedule_yields rfl rfl rfl rfl hw
  have hregion : YieldsIf (Emit.region ctx nothing) ((), s.written roots w) (s.EncodesAll roots)
      Error.IsInput := by
    refine (hscheduled.bindReturn fun _ => Emit.words_apply _).congr ?_ Iff.rfl
    refine Prod.ext rfl ?_
    rw [Emission.extend_extend, List.append_nil, List.append_nil, List.append_nil,
      List.append_assoc]
    rfl
  exact hregion.andReturn fun _ => rfl

lemma Stands.written_eq (h : s.Stands roots stop) {roots' : List Root} {stop' : Nat}
    (h' : s.Stands roots' stop') (hall : s.EncodesAll roots) {w : Writer} (hw : 4 ∣ w.position) :
    s.written roots w = s.written roots' w :=
  ((h'.emit_yields hw).of_ok ((h.emit_yields hw).eq_ok hall)).1

end Script

end ScriptContainer
