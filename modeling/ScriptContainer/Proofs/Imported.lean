import ScriptContainer.Proofs.Accounting
import ScriptContainer.Proofs.ReadingBack
import ScriptContainer.Proofs.RoundTrip

/-!
# Scripts of documents

A script that was made from a document holds what the document says. If a container can hold that,
and every operand is bound to the record to which its number leads, then building the script and
parsing the bytes gives the script back.
-/

namespace ScriptContainer

lemma ValueType.code_ofCode (code : UInt32) : (ValueType.ofCode code).code = code := by
  unfold ofCode
  split
  case isTrue h => exact h.symm
  case isFalse =>
    split
    case isTrue h => exact h.symm
    case isFalse =>
      split
      case isTrue h => exact h.symm
      case isFalse => rfl

/-- A container can hold the function and what it owns. -/
structure Function.IsStorable (f : Function) : Prop where
  declared : f.isDeclared
  name : ∀ name ∈ f.name, NulFree name
  vars : ∀ v ∈ f.vars.records, v.scope = .owned ∧ v.IsStored
  tables : ∀ t ∈ f.tables.records, ∀ name ∈ t.name, NulFree name
  labels : ∀ l ∈ f.labels.records, ∀ name ∈ l.name, NulFree name

lemma foldlM_keeps {α σ ε : Type} {P : σ → Prop} {step : σ → α → Except ε σ} {xs : List α}
    (hstep : ∀ x ∈ xs, ∀ s t, P s → step s x = .ok t → P t) {s t : σ} (hs : P s)
    (hrun : xs.foldlM step s = .ok t) : P t := by
  induction xs generalizing s with
  | nil => exact pure_eq_ok_iff.mp hrun ▸ hs
  | cons x xs ih =>
    rw [List.forall_mem_cons] at hstep
    rw [List.foldlM_cons] at hrun
    obtain ⟨middle, hfirst, hrest⟩ := bind_eq_ok_iff.mp hrun
    exact ih hstep.2 (hstep.1 s middle hs hfirst) hrest

/-- A container can hold all records of the script, which has all temporaries. -/
structure Script.HoldsStorable (s : Script) : Prop where
  functions : ∀ f ∈ s.functions.records, f.IsStorable
  tables : ∀ t ∈ s.tables.records, ∀ name ∈ t.name, NulFree name
  imports : ∀ i ∈ s.imports.records, ∀ name ∈ i.name, NulFree name
  vars : ∀ v ∈ s.vars.records, (∃ n < Variable.temporaryCount, v = .temporary n) ∨
    (v.scope = .static ∨ v.scope = .constant ∨ v.scope = .global) ∧ v.IsStored
  temporaries : ∀ n < Variable.temporaryCount, (Variable.temporary n).id ∈ s.vars.ids

namespace Script.HoldsStorable

variable {s : Script}

lemma name_of_table? (h : s.HoldsStorable) {ref : TableRef} {t : Table} (ht : s.table? ref = some t) :
    ∀ name ∈ t.name, NulFree name := by
  obtain ⟨owner, id⟩ := ref
  cases owner with
  | script => exact h.tables t (Registry.mem_of_get? ht)
  | function f =>
    obtain ⟨g, hg, ht⟩ := Option.bind_eq_some_iff.mp ht
    exact (h.functions g (Registry.mem_of_get? hg)).tables t (Registry.mem_of_get? ht)

lemma isStorable (h : s.HoldsStorable) : s.IsStorable where
  declared f hf := (h.functions f hf).declared
  names f hf := (h.functions f hf).name
  owned f hf := (h.functions f hf).vars
  labels f hf := (h.functions f hf).labels
  tables _ he := h.name_of_table? (mem_allTables.mp he)
  imports := h.imports
  vars := h.vars
  temporaries := h.temporaries

lemma replaceTable (h : s.HoldsStorable) {owner : Owner} {t : Table}
    (ht : ∀ name ∈ t.name, NulFree name) : (s.replaceTable owner t).HoldsStorable := by
  cases owner with
  | script => exact { h with tables := Registry.forall_replace h.tables ht }
  | function id =>
    refine { h with functions := ?_ }
    exact Registry.forall_modify id h.functions fun _ _ hf =>
      { hf with tables := Registry.forall_replace hf.tables ht }

lemma addFunctions (h : s.HoldsStorable) {fs : List Function} (hfs : ∀ f ∈ fs, f.IsStorable) :
    (fs.foldl Script.addFunction s).HoldsStorable := by
  rw [foldl_addFunction]
  exact { h with functions := Registry.forall_foldl_insert h.functions hfs }

lemma addVariables (h : s.HoldsStorable) {vs : List Variable} (hvs : ∀ v ∈ vs,
    (v.scope = .static ∨ v.scope = .constant ∨ v.scope = .global) ∧ v.IsStored) :
    (vs.foldl Script.addVariable s).HoldsStorable := by
  rw [foldl_addVariable]
  exact { h with
    vars := Registry.forall_foldl_insert h.vars fun v hv => .inr (hvs v hv)
    temporaries := fun n hn => (Registry.ids_prefix_foldl_insert vs s.vars).subset (h.temporaries n hn) }

lemma addTables (h : s.HoldsStorable) {ts : List Table}
    (hts : ∀ t ∈ ts, ∀ name ∈ t.name, NulFree name) : (ts.foldl Script.addTable s).HoldsStorable := by
  rw [foldl_addTable]
  exact { h with tables := Registry.forall_foldl_insert h.tables hts }

lemma addImports (h : s.HoldsStorable) {is : List Import}
    (his : ∀ i ∈ is, ∀ name ∈ i.name, NulFree name) : (is.foldl Script.addImport s).HoldsStorable := by
  rw [foldl_addImport]
  exact { h with imports := Registry.forall_foldl_insert h.imports his }

lemma ofNew : Script.new.HoldsStorable := by
  refine ⟨List.forall_mem_nil _, List.forall_mem_nil _, List.forall_mem_nil _, fun v hv => ?_,
    fun n hn => List.mem_map_of_mem (temporary_mem_vars_new hn)⟩
  rw [records_vars_new] at hv
  obtain ⟨n, hn, rfl⟩ := List.mem_map.mp hv
  exact .inl ⟨n, List.mem_range.mp hn, rfl⟩

end Script.HoldsStorable

namespace Document

/-- A container can hold the variable. -/
structure Variable.IsStored (v : Variable) : Prop where
  name : ∀ name ∈ v.name, NulFree name
  text : ∀ text, v.value = .string text → NulFree text
  raw : ∀ code word, v.value = .raw code word → code.toNat < 2 ^ 24

/-- A container can hold the function and what it owns. -/
structure Function.IsStored (f : Function) : Prop where
  declared : f.isDeclared
  name : ∀ name ∈ f.name, NulFree name
  vars : ∀ v ∈ f.vars, v.IsStored
  tables : ∀ t ∈ f.tables, ∀ name ∈ t.name, NulFree name
  labels : ∀ l ∈ f.labels, ∀ name ∈ l.name, NulFree name

/-- A container can hold all that the document says. -/
structure IsStorable (d : Document) : Prop where
  functions : ∀ f ∈ d.functions, f.IsStored
  vars : ∀ v ∈ d.vars, (v.scope = .static ∨ v.scope = .constant ∨ v.scope = .global) ∧ v.IsStored
  tables : ∀ t ∈ d.tables, ∀ name ∈ t.name, NulFree name
  imports : ∀ i ∈ d.imports, ∀ name ∈ i.name, NulFree name

lemma Variable.IsStored.toRecord {v : Variable} {r : ScriptContainer.Variable} (h : v.IsStored)
    (hr : v.toRecord = .ok r) : r.scope = v.scope ∧ r.IsStored := by
  have hint : ValueType.int.IsStored := by decide
  have hfloat : ValueType.float.IsStored := by decide
  have hstring : ValueType.string.IsStored := by decide
  obtain ⟨id, name, scope, flags, value⟩ := v
  cases value with
  | int value =>
    obtain rfl := Except.ok.inj hr
    exact ⟨rfl, h.name, hint, rfl, fun _ he => by cases he⟩
  | float value =>
    obtain rfl := Except.ok.inj hr
    exact ⟨rfl, h.name, hfloat, rfl, fun _ he => by cases he⟩
  | floatBits bits =>
    obtain rfl := Except.ok.inj hr
    exact ⟨rfl, h.name, hfloat, rfl, fun _ he => by cases he⟩
  | string text =>
    obtain rfl := Except.ok.inj hr
    exact ⟨rfl, h.name, hstring, rfl, fun _ he => ScriptContainer.Value.string.inj he ▸ h.text text rfl⟩
  | raw code word =>
    rw [Variable.toRecord] at hr
    dsimp only at hr
    split at hr
    case h_1 other hother =>
      obtain rfl := Except.ok.inj hr
      obtain rfl : code = other := by
        have := congrArg ValueType.code hother
        rwa [ValueType.code_ofCode] at this
      exact ⟨rfl, h.name, ⟨h.raw code word rfl, hother⟩, rfl, fun _ he => by cases he⟩
    case h_2 => cases hr

lemma Function.IsStored.toRecord {f : Function} {r : ScriptContainer.Function} (h : f.IsStored)
    (hr : f.toRecord = .ok r) : r.IsStorable := by
  unfold Function.toRecord at hr
  obtain ⟨_, -, hr⟩ := bind_eq_ok_iff.mp hr
  obtain ⟨_, -, hr⟩ := bind_eq_ok_iff.mp hr
  obtain ⟨_, -, hr⟩ := bind_eq_ok_iff.mp hr
  obtain ⟨vars, hvars, hr⟩ := bind_eq_ok_iff.mp hr
  obtain rfl := pure_eq_ok_iff.mp hr
  refine List.foldlRecOn _ _ (List.foldlRecOn _ _ (List.foldlRecOn _ _ ?_ ?_) ?_) ?_
  · exact ⟨h.declared, h.name, List.forall_mem_nil _, List.forall_mem_nil _, List.forall_mem_nil _⟩
  · intro g hg v hv
    obtain ⟨doc, hdoc, hv⟩ := exists_of_mem_mapM hvars hv
    obtain ⟨hname, htype, hfits, htext⟩ := ((h.vars doc hdoc).toRecord hv).2
    exact { hg with vars := Registry.forall_insert hg.vars ⟨rfl, hname, htype, hfits, htext⟩ }
  · intro g hg t ht
    obtain ⟨doc, hdoc, rfl⟩ := List.mem_map.mp ht
    exact { hg with tables := Registry.forall_insert hg.tables (h.tables doc hdoc) }
  · intro g hg l hl
    exact { hg with labels := Registry.forall_insert hg.labels (h.labels l hl) }

lemma IsStorable.records {d : Document} {s : Script} (h : d.IsStorable) (hs : d.records = .ok s) :
    s.HoldsStorable := by
  unfold Document.records at hs
  obtain ⟨_, -, hs⟩ := bind_eq_ok_iff.mp hs
  obtain ⟨_, -, hs⟩ := bind_eq_ok_iff.mp hs
  obtain ⟨_, -, hs⟩ := bind_eq_ok_iff.mp hs
  obtain ⟨_, -, hs⟩ := bind_eq_ok_iff.mp hs
  obtain ⟨vars, hvars, hs⟩ := bind_eq_ok_iff.mp hs
  obtain ⟨functions, hfunctions, hs⟩ := bind_eq_ok_iff.mp hs
  obtain rfl := pure_eq_ok_iff.mp hs
  have hvars : ∀ v ∈ vars,
      (v.scope = .static ∨ v.scope = .constant ∨ v.scope = .global) ∧ v.IsStored := by
    intro v hv
    obtain ⟨doc, hdoc, hv⟩ := exists_of_mem_mapM hvars hv
    obtain ⟨hscope, hstored⟩ := (h.vars doc hdoc).2.toRecord hv
    rw [hscope]
    exact ⟨(h.vars doc hdoc).1, hstored⟩
  have htables : ∀ t ∈ d.tables.map Table.toRecord, ∀ name ∈ t.name, NulFree name := by
    intro t ht
    obtain ⟨doc, hdoc, rfl⟩ := List.mem_map.mp ht
    exact h.tables doc hdoc
  have hfunctions : ∀ f ∈ functions, f.IsStorable := by
    intro f hf
    obtain ⟨doc, hdoc, hf⟩ := exists_of_mem_mapM hfunctions hf
    exact (h.functions doc hdoc).toRecord hf
  have hholds := Script.HoldsStorable.ofNew.addImports h.imports |>.addVariables hvars
    |>.addTables htables |>.addFunctions hfunctions
  exact { hholds with }

lemma bindTable_keeps {ctx : Context} {owner : Owner} {t : Table} {s u : Script}
    (h : s.HoldsStorable) (hu : bindTable ctx owner s t = .ok u) : u.HoldsStorable := by
  unfold bindTable at hu
  split at hu
  case h_1 texts _ =>
    obtain ⟨refs, -, hu⟩ := bind_eq_ok_iff.mp hu
    split at hu
    case h_1 found hfound =>
      obtain rfl := pure_eq_ok_iff.mp hu
      have hname := h.name_of_table? hfound
      exact h.replaceTable hname
    case h_2 => exact pure_eq_ok_iff.mp hu ▸ h
  case h_2 => exact Except.ok.inj hu ▸ h

lemma bindFunction_keeps {records : Script} {chains : Registry Chain} {f : Function} {s u : Script}
    (h : s.HoldsStorable) (hu : bindFunction records chains s f = .ok u) : u.HoldsStorable := by
  unfold bindFunction at hu
  split at hu
  case h_1 => exact Except.ok.inj hu ▸ h
  case h_2 record _ =>
    obtain ⟨t, ht, hu⟩ := bind_eq_ok_iff.mp hu
    obtain ⟨code, -, hu⟩ := bind_eq_ok_iff.mp hu
    obtain rfl := pure_eq_ok_iff.mp hu
    have ht : t.HoldsStorable := foldlM_keeps (fun _ _ _ _ => bindTable_keeps) h ht
    refine { ht with functions := ?_ }
    exact Registry.forall_modify f.id ht.functions fun _ _ hg => { hg with }

lemma IsStorable.toScript {d : Document} {s : Script} (h : d.IsStorable) (hs : d.toScript = .ok s) :
    s.IsStorable := by
  obtain ⟨records, hrecords, hs⟩ := bind_eq_ok_iff.mp hs
  obtain ⟨t, ht, hs⟩ := bind_eq_ok_iff.mp hs
  have ht : t.HoldsStorable := foldlM_keeps (fun _ _ _ _ => bindTable_keeps) (h.records hrecords) ht
  have hs : s.HoldsStorable := foldlM_keeps (fun _ _ _ _ => bindFunction_keeps) ht hs
  exact hs.isStorable

end Document

namespace Script

/-- If building succeeds on the script of a document, parsing the bytes gives the script back, every
operand bound to the record to which the document binds it. This is so where no word of the code can
be taken for another one and every record is found by its number wherever it is referred to: a name
may lead past a record of the same number, but the container holds numbers alone. -/
theorem parse_imported {d : Document} {s after : Script} {options : Options} {built : Built}
    {emission : Emission} (hstorable : d.IsStorable) (himport : d.toScript = .ok s)
    (hbuild : build options s = .ok built after) (hemission : after.emit .empty = .ok emission)
    (hclear : s.IsClear) (hkeeps : s.KeepsReferences emission.chains)
    (hsize : built.bytes.size < 4 * UInt32.size) :
    ∃ parsed, parse options built.bytes = .ok parsed ∧ after.SameRecords parsed ∧
      ∀ id, Option.Rel Function.Retains (s.functions.get? id) (parsed.functions.get? id) := by
  obtain ⟨laid, roots, stop, h⟩ := (build_outcome options s).of_ok hbuild
  obtain ⟨parsed, hparsed, hsame⟩ :=
    h.exists_parse hemission (hstorable.toScript himport) hclear hkeeps hsize
  refine ⟨parsed, hparsed, hsame, ?_⟩
  rw [hsame.functions]
  exact h.retains.get?

/-- The document of the errand, as it might be written by hand. -/
def errandDocument : Document where
  imports := []
  vars := [⟨3, some "title", .static, 0, .string "Errand"⟩]
  tables := []
  functions := [
    { id := 1
      name := some "run"
      isPublic := false
      isInline := false
      isDeclared := true
      unknown := .zero
      codeStart := 0
      codeEnd := 0
      vars := [⟨2, some "count", .owned, 0, .int 7⟩]
      tables := []
      labels := []
      code := [.set "count" (.expr [.symbol "count", .symbol "ref:3", .operator "+"]),
        .thread ⟨"run", [], ["count"]⟩, .return] }]
  padding := .none

lemma errandDocument_isStorable : errandDocument.IsStorable := by
  refine ⟨fun f hf => ?_, fun v hv => ?_, List.forall_mem_nil _, List.forall_mem_nil _⟩
  · obtain rfl := List.mem_singleton.mp hf
    refine ⟨rfl, by decide +kernel, fun v hv => ?_, List.forall_mem_nil _,
      List.forall_mem_nil _⟩
    obtain rfl := List.mem_singleton.mp hv
    exact ⟨by decide +kernel, fun _ h => Document.Value.noConfusion h,
      fun _ _ h => Document.Value.noConfusion h⟩
  · obtain rfl := List.mem_singleton.mp hv
    refine ⟨.inl rfl, by decide +kernel, ?_, fun _ _ h => Document.Value.noConfusion h⟩
    rintro text ⟨⟩
    decide +kernel

set_option maxRecDepth 8000 in
lemma errandDocument_toScript : errandDocument.toScript = .ok errand := rfl

theorem errandDocument_returns : ∃ built after parsed, errandDocument.toScript = .ok errand ∧
    build .lenient errand = .ok built after ∧ parse .lenient built.bytes = .ok parsed ∧
    after.SameRecords parsed := by
  obtain ⟨built, after, emission, hbuild, hemit, hkeeps, hsize⟩ := errand_built
  obtain ⟨parsed, hparsed, hsame, -⟩ :=
    parse_imported errandDocument_isStorable errandDocument_toScript hbuild hemit errand_isClear
      hkeeps hsize
  exact ⟨built, after, parsed, errandDocument_toScript, hbuild, hparsed, hsame⟩

/-- A document that calls a variable of the script by its name, while the function has another
variable of the same number. -/
def doubletDocument : Document where
  imports := []
  vars := [⟨5, some "y", .static, 0, .int 0⟩]
  tables := []
  functions := [
    { id := 1
      name := none
      isPublic := false
      isInline := false
      isDeclared := true
      unknown := .zero
      codeStart := 0
      codeEnd := 0
      vars := [⟨5, some "x", .owned, 0, .int 0⟩]
      tables := []
      labels := []
      code := [.set "y" (.var "y"), .return] }]
  padding := .none

/-- The script of the document. -/
def doublet : Script :=
  let y : VarRef := ⟨.script, 5⟩
  let run := { Function.new 1 with code := [.set y (.var y), .return] }
  (Script.new.addVariable ⟨5, some "y", .static, .int, 0, .int 0⟩).addFunction
    (run.addVariable ⟨5, some "x", .owned, .int, 0, .int 0⟩)

lemma doubletDocument_isStorable : doubletDocument.IsStorable := by
  refine ⟨fun f hf => ?_, fun v hv => ?_, List.forall_mem_nil _, List.forall_mem_nil _⟩
  · obtain rfl := List.mem_singleton.mp hf
    refine ⟨rfl, by decide +kernel, fun v hv => ?_, List.forall_mem_nil _,
      List.forall_mem_nil _⟩
    obtain rfl := List.mem_singleton.mp hv
    exact ⟨by decide +kernel, fun _ h => Document.Value.noConfusion h,
      fun _ _ h => Document.Value.noConfusion h⟩
  · obtain rfl := List.mem_singleton.mp hv
    exact ⟨.inl rfl, by decide +kernel, fun _ h => Document.Value.noConfusion h,
      fun _ _ h => Document.Value.noConfusion h⟩

set_option maxRecDepth 8000 in
lemma doubletDocument_toScript : doubletDocument.toScript = .ok doublet := rfl

/-- The container of the script. -/
def doubletBytes : Array UInt8 :=
  (magic ++ bytesOfWords [11, 11, 29, 36, 37, 38, 39, 40, 0, 1,
    0, 1, 0, 0, 0, 4, 0, 0, 1, 4294967295, 5, 1, 0, 1, 120, 0, 0, 1, 4294967295, 5, 1, 0, 1, 121,
    0, 0, 0, 0, 4, 317, 5, 5, 9]).toArray

/-- The variables that the code of a function sets. -/
def assignees (s : Script) (id : RecordId) : Option (List VarRef) :=
  (s.functions.get? id).map fun f => f.code.filterMap fun
    | .set ref _ => some ref
    | _ => none

lemma doublet_parses : ∃ parsed, parse .lenient doubletBytes = .ok parsed ∧
    parsed.assignees 1 = some [⟨.function 1, 5⟩] := by
  have hopens : Opens doubletBytes 160 := by decide +kernel
  have hlook : (scanned? (declaredIn doubletBytes) doubletBytes 160).map (fun s => s.assignees 1) =
    some (some [⟨.function 1, 5⟩]) := by decide +kernel
  exact hopens.exists_parse hlook

lemma doublet_written : (doublet.writing? .lenient).map (fun written =>
      (containerBytes written.1.sectionBytes written.2.writer.bytes.toList, written.1.assignees 1)) =
    some (doubletBytes.toList, some [⟨.script, 5⟩]) := by decide +kernel

/-- The document calls the variable of the script by its name. In the container that is built from it
the same number means the variable of the function. -/
theorem doubletDocument_strays : doubletDocument.IsStorable ∧
    doubletDocument.toScript = .ok doublet ∧ doublet.IsClear ∧
    ∃ built after parsed, build .lenient doublet = .ok built after ∧
      parse .lenient built.bytes = .ok parsed ∧
      after.assignees 1 = some [⟨.script, 5⟩] ∧ parsed.assignees 1 = some [⟨.function 1, 5⟩] := by
  refine ⟨doubletDocument_isStorable, doubletDocument_toScript, isClear_of_all (by decide +kernel), ?_⟩
  obtain ⟨built, after, emission, hbuild, -, hbytes, hfacts⟩ := exists_build_of_writing doublet_written
  obtain ⟨hcontainer, hassignees⟩ := Prod.mk.inj hfacts
  obtain ⟨parsed, hparse, hparsed⟩ := doublet_parses
  refine ⟨built, after, parsed, hbuild, ?_, hassignees, hparsed⟩
  rw [Array.toList_inj.mp (hbytes.trans hcontainer), hparse]

end Script

end ScriptContainer
