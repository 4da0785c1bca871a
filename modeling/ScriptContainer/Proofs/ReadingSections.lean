import ScriptContainer.Proofs.Fixing
import ScriptContainer.Proofs.Recovering

/-!
# Reading sections back

The header gives the start of every section, and reading has to come to each section at its start.
Sections that can be held by a container are read as they were written, up to the code region.
-/

namespace ScriptContainer

/-- Where the reader stands at `start` of a container that has at least `reach` bytes, and not more
than words can count, the read takes up the bytes and answers `x`. -/
def ReadsAt {α : Type} (reach start : Nat) (read : Read α) (bytes : List UInt8) (x : α) : Prop :=
  ∀ (r : Reader) (rest : List UInt8), r.offset = start → reach ≤ r.bytes.size →
    r.bytes.size < 4 * UInt32.size → r.Shows (bytes ++ rest) → read r = .ok x (r.skip bytes.length)

namespace ReadsAt

variable {α β : Type} {reach start : Nat} {read : Read α} {bytes more : List UInt8} {x : α} {y : β}

lemma of_reads (h : Reads (Spans reach) read bytes x) : ReadsAt reach start read bytes x :=
  fun r rest _ hreach hsize hshows => h r rest ⟨hreach, hsize⟩ hshows

lemma pure (x : α) : ReadsAt reach start (Pure.pure x) [] x := of_reads (.pure x)

lemma bind {next : α → Read β} (h : ReadsAt reach start read bytes x)
    (hn : ReadsAt reach (start + bytes.length) (next x) more y) :
    ReadsAt reach start (read >>= next) (bytes ++ more) y := by
  intro r rest hstart hreach hsize hshows
  rw [List.append_assoc] at hshows
  have hplace : (r.skip bytes.length).offset = start + bytes.length := by rw [← hstart]; rfl
  rw [bind_of_ok (h r _ hstart hreach hsize hshows), hn _ rest hplace hreach hsize hshows.skip,
    Reader.skip_skip, List.length_append]

lemma enter_bind {sections : List Nat} {index : Nat} {next : Unit → Read β}
    (h : sections.getD index 0 = start) (hn : ReadsAt reach start (next ()) more y) :
    ReadsAt reach start (Read.enter sections index >>= next) more y := by
  intro r rest hstart hreach hsize hshows
  have henter : Read.enter sections index r = .ok () r := by
    unfold Read.enter
    rw [bind_of_ok (rfl : Read.offset r = .ok r.offset r), h, if_pos hstart]
    rfl
  rw [bind_of_ok henter]
  exact hn r rest hstart hreach hsize hshows

lemma wordsUntil (ws : List UInt32) {stop : Nat} (h : stop = start + (bytesOfWords ws).length) :
    ReadsAt reach start (Read.wordsUntil stop) (bytesOfWords ws) ws := by
  intro r rest hstart _ _ hshows
  rw [length_bytesOfWords] at h ⊢
  subst h hstart
  exact Read.wordsUntil_apply hshows

end ReadsAt

namespace Reads

variable {reach : Nat}

lemma mapM {sizes : Nat → Prop} {ι α : Type} {read : ι → Read α} {bytes : α → List UInt8}
    {is : List ι} {xs : List α}
    (hlength : is.length = xs.length) (h : ∀ i, ∀ x ∈ xs, Reads sizes (read i) (bytes x) x) :
    Reads sizes (is.mapM read) (xs.flatMap bytes) xs := by
  induction xs generalizing is with
  | nil =>
    obtain rfl := List.length_eq_zero_iff.mp hlength
    exact pure []
  | cons x xs ih =>
    obtain ⟨i, is, rfl⟩ := List.exists_cons_of_length_eq_add_one hlength
    rw [List.mapM_cons]
    refine (h i x List.mem_cons_self).bind ((ih (Nat.succ.inj hlength) fun i x hx => ?_).bind_pure
      (pure _))
    exact h i x (List.mem_cons_of_mem _ hx)

lemma sectionOffset (index : Nat) {start : Nat} (hstart : 4 ∣ start) (hreach : start ≤ reach) :
    Reads (Spans reach) (Read.sectionOffset index) (bytesOfWord (UInt32.ofNat (start / 4))) start := by
  intro r rest hspans hshows
  obtain ⟨hr, hsize⟩ := hspans
  have hcount : (UInt32.ofNat (start / 4)).toNat * 4 = start := by
    rw [UInt32.toNat_ofNat_of_lt' (by omega)]
    exact Nat.div_mul_cancel hstart
  have hread : Reads (Spans reach) (do
      let count ← Read.word
      if count.toNat * 4 ≤ (← Read.length) then return count.toNat * 4
      else Read.malformed r.offset (.sectionPastEnd index count))
      (bytesOfWord (UInt32.ofNat (start / 4))) start := by
    refine (word _).bind_pure fun r rest hspans _ => ?_
    change (if (UInt32.ofNat (start / 4)).toNat * 4 ≤ r.bytes.size then
      (Pure.pure ((UInt32.ofNat (start / 4)).toNat * 4) : Read Nat) else _) r = _
    rw [hcount, if_pos (hreach.trans hspans.1)]
    rfl
  exact hread r rest ⟨hr, hsize⟩ hshows

lemma sectionOffsets {starts : List Nat} (hlength : starts.length = sectionCount)
    (h : ∀ start ∈ starts, 4 ∣ start ∧ start ≤ reach) :
    Reads (Spans reach) Read.sectionOffsets
      (bytesOfWords (starts.map fun start => UInt32.ofNat (start / 4)) ++ bytesOfWord 0) starts := by
  have hwords : bytesOfWords (starts.map fun start => UInt32.ofNat (start / 4)) =
      starts.flatMap fun start => bytesOfWord (UInt32.ofNat (start / 4)) := by
    rw [bytesOfWords, List.flatMap_map]
  rw [hwords]
  refine (mapM (by rw [List.length_range, hlength]) fun index start hs =>
    sectionOffset index (h start hs).1 (h start hs).2).bind ?_
  exact offset_bind fun here => (word 0).bind_pure (pure starts)

end Reads

namespace Read

/-- The sections before the code region. -/
def declarations : Read Script := do
  let sections ← sectionOffsets
  enter sections 0
  let front ← wordsUntil (sections.getD 1 0)
  enter sections 1
  let functions ← counted function
  let s := functions.foldl Script.addFunction Script.new
  enter sections 2
  let s ← variableSection s .static
  enter sections 3
  let tables ← tables
  let afterTables ← wordsUntil (sections.getD 4 0)
  let s := { s with tables, padding := ⟨front, afterTables, []⟩ }
  enter sections 4
  let s ← variableSection s .constant
  enter sections 5
  let imports ← counted imported
  let s := imports.foldl Script.addImport s
  enter sections 6
  let s ← variableSection s .global
  enter sections 7
  return s

/-- Fail where the labels of a function disagree with its label instructions. -/
def checkLabels (options : Options) (f : Function) : Read Unit :=
  match f.checkLabels options with
  | .ok () => return ()
  | .error e => throw e

/-- The code region after the count of its words. -/
def code (options : Options) (s : Script) : Read Script := do
  let countOffset ← offset
  let count ← word
  let remaining := (← get).remaining
  if count.toNat * 4 ≠ remaining then
    malformed countOffset (.codeLength count.toNat remaining)
  else
    let found ← region s
    let s := found.apply s
    s.functions.records.forM (checkLabels options)
    return s

lemma script_eq (options : Options) :
    script options = (do
      let s ← declarations
      code options s) := by
  unfold script declarations code
  simp only [bind_assoc, pure_bind]
  rfl

end Read

namespace Script

/-- The variables as a container holds them: the temporaries first, and then one section after the
other. -/
def storedVars (s : Script) : Registry Variable :=
  (s.variablesIn .static ++ (s.variablesIn .constant ++ s.variablesIn .global)).foldl
    Registry.insert Script.new.vars

lemma storedVars_shown (s : Script) : s.shown.storedVars = s.storedVars := rfl

lemma nodup_variablesIn (s : Script) (scope : Scope) :
    ((s.variablesIn scope).map Keyed.id).Nodup :=
  s.vars.nodup.sublist (List.filter_sublist.map _)

lemma records_vars_new :
    new.vars.records = (List.range Variable.temporaryCount).map Variable.temporary := by
  refine Registry.records_ofList ?_
  decide

lemma foldl_addFunction (fs : List Function) (s : Script) :
    fs.foldl addFunction s = { s with functions := fs.foldl Registry.insert s.functions } :=
  List.foldl_hom (fun functions => ({ s with functions } : Script)) fun _ _ => rfl

lemma foldl_addImport (is : List Import) (s : Script) :
    is.foldl addImport s = { s with imports := is.foldl Registry.insert s.imports } :=
  List.foldl_hom (fun imports => ({ s with imports } : Script)) fun _ _ => rfl

lemma foldl_addVariable (vs : List Variable) (s : Script) :
    vs.foldl addVariable s = { s with vars := vs.foldl Registry.insert s.vars } :=
  List.foldl_hom (fun vars => ({ s with vars } : Script)) fun _ _ => rfl

/-- A container of at least `reach` bytes can hold the declarations of the script. -/
structure IsStored (s : Script) (reach : Nat) : Prop where
  declared : ∀ f ∈ s.functions.records, f.isDeclared
  functions : ∀ f ∈ s.functions.records, f.IsStored reach
  vars : ∀ scope, scope = .static ∨ scope = .constant ∨ scope = .global →
    ∀ v ∈ s.variablesIn scope, v.IsStored
  tables : ∀ t ∈ s.tables.records, t.IsStored reach
  imports : ∀ i ∈ s.imports.records, ∀ name ∈ i.name, NulFree name

lemma bare_eq (t : Script) (h : ∀ f ∈ t.functions.records, f.isDeclared) :
    t.bare t.storedVars =
      { imports := t.imports.records.foldl Registry.insert Script.new.imports
        functions := (t.declared.map Function.bare).foldl Registry.insert Script.new.functions
        vars := (t.variablesIn .global).foldl Registry.insert
          ((t.variablesIn .constant).foldl Registry.insert
            ((t.variablesIn .static).foldl Registry.insert Script.new.vars))
        tables := .ofList (t.tables.records.map Table.emptied)
        padding := ⟨t.padding.front, t.padding.tables, []⟩ } := by
  have hdeclared : t.declared = t.functions.records := List.filter_eq_self.mpr h
  have hfunctions : (t.declared.map Function.bare).foldl Registry.insert Script.new.functions =
      t.functions.map Function.bare Function.id_bare := by
    rw [hdeclared]
    exact (t.functions.map Function.bare Function.id_bare).ofList_records
  have htables : Registry.ofList (t.tables.records.map Table.emptied) =
      t.tables.map Table.emptied Table.id_emptied :=
    (t.tables.map Table.emptied Table.id_emptied).ofList_records
  have himports : t.imports.records.foldl Registry.insert Script.new.imports = t.imports :=
    t.imports.ofList_records
  rw [hfunctions, htables, himports, storedVars, List.foldl_append, List.foldl_append]
  rfl

lemma flatten_sectionBytes (t : Script) : t.sectionBytes.flatten =
    bytesOfWords t.padding.front ++ (bytesOfList Function.declaration t.declared ++
      (bytesOfList Variable.bytes (t.variablesIn .static) ++
        (bytesOfList Table.declaration t.tables.records ++ (bytesOfWords t.padding.tables ++
          (bytesOfList Variable.bytes (t.variablesIn .constant) ++
            (bytesOfList Import.bytes t.imports.records ++
              (bytesOfList Variable.bytes (t.variablesIn .global) ++ []))))))) := by
  simp only [sectionBytes, List.flatten_cons, List.flatten_nil, List.append_nil,
    List.append_assoc]

end Script

namespace ReadsAt

variable {reach start : Nat}

lemma variableSection (s t : Script) {scope : Scope} (h : ∀ v ∈ t.variablesIn scope, v.IsStored) :
    ReadsAt reach start (Read.variableSection s scope)
      (bytesOfList Variable.bytes (t.variablesIn scope))
      { s with vars := (t.variablesIn scope).foldl Registry.insert s.vars } := by
  have hstored : ∀ v ∈ t.variablesIn scope, v.scope = scope ∧ v.IsStored :=
    fun v hv => ⟨beq_iff_eq.mp (List.mem_filter.mp hv).2, h v hv⟩
  refine of_reads ((Reads.vars hstored fun count _ => Spans.counts reach count).bind_pure ?_)
  rw [Registry.records_ofList (t.nodup_variablesIn scope), Script.foldl_addVariable]
  exact .pure _

lemma header (t : Script) (hreach : headerSize + t.sectionBytes.flatten.length ≤ reach) :
    Reads (Spans reach) Read.sectionOffsets
      (bytesOfWords ((startsFrom headerSize t.sectionBytes).map fun start =>
        UInt32.ofNat (start / 4)) ++ bytesOfWord 0) (startsFrom headerSize t.sectionBytes) := by
  refine Reads.sectionOffsets (Script.length_startsFrom _ _) fun start hs => ?_
  obtain ⟨hdvd, hle⟩ := Script.startsFrom_bounds ⟨11, rfl⟩ t.four_dvd_sectionBytes start hs
  exact ⟨hdvd, hle.trans hreach⟩

/-- The declarations of a script that a container can hold are read as they were written. -/
theorem declarations (t : Script) (h : t.IsStored reach)
    (hreach : headerSize + t.sectionBytes.flatten.length ≤ reach) :
    ReadsAt reach magic.length Read.declarations
      (bytesOfWords ((startsFrom headerSize t.sectionBytes).map fun start =>
        UInt32.ofNat (start / 4)) ++ bytesOfWord 0 ++ t.sectionBytes.flatten)
      (t.bare t.storedVars) := by
  have hstart : magic.length + (bytesOfWords ((startsFrom headerSize t.sectionBytes).map fun start =>
      UInt32.ofNat (start / 4)) ++ bytesOfWord 0).length = headerSize := by
    rw [List.length_append, length_bytesOfWords, List.length_map, Script.length_startsFrom]
    rfl
  have hinside : ∀ size, Spans reach size → reach ≤ size := fun _ hspans => hspans.1
  have hfunctions : ∀ f ∈ t.declared, Reads (Spans reach) Read.function f.declaration f.bare :=
    fun f hf => Reads.function hinside (h.functions f (List.mem_of_mem_filter hf))
      fun count _ => Spans.counts reach count
  rw [t.flatten_sectionBytes]
  refine (of_reads (header t hreach)).bind ?_
  rw [hstart]
  refine enter_bind rfl ?_
  refine (wordsUntil t.padding.front rfl).bind ?_
  refine enter_bind rfl ?_
  refine (of_reads (Reads.counted_map hfunctions (fun f => ?_) (Spans.counts reach _))).bind ?_
  · simp [Function.declaration, Function.fixedWords, length_bytesOfWords]
    omega
  refine enter_bind rfl ?_
  refine (variableSection _ t (h.vars .static (.inl rfl))).bind ?_
  refine enter_bind rfl ?_
  refine (of_reads (Reads.tables hinside h.tables fun count _ => Spans.counts reach count)).bind ?_
  -- The words after the tables belong to the same section.
  have hafter (front : Nat) : front + (bytesOfList Table.declaration t.tables.records).length +
      (bytesOfWords t.padding.tables).length = front +
        (bytesOfList Table.declaration t.tables.records ++ bytesOfWords t.padding.tables).length := by
    rw [List.length_append, Nat.add_assoc]
  refine (wordsUntil t.padding.tables (hafter _).symm).bind ?_
  rw [hafter]
  refine enter_bind rfl ?_
  refine (variableSection _ t (h.vars .constant (.inr (.inl rfl)))).bind ?_
  refine enter_bind rfl ?_
  have himports : ∀ i ∈ t.imports.records, Reads (Spans reach) Read.imported i.bytes i :=
    fun i hi => Reads.imported (h.imports i hi) fun count _ => Spans.counts reach count
  refine (of_reads (Reads.counted himports (fun i => ?_) (Spans.counts reach _))).bind ?_
  · simp [Import.bytes, length_bytesOfWords]
    omega
  refine enter_bind rfl ?_
  refine (variableSection _ t (h.vars .global (.inr (.inr rfl)))).bind ?_
  refine enter_bind rfl ?_
  rw [Script.foldl_addFunction, Script.foldl_addImport, t.bare_eq h.declared]
  exact pure _

end ReadsAt

lemma Read.forM_apply {α : Type} {check : α → Read Unit} {r : Reader} {xs : List α}
    (h : ∀ x ∈ xs, check x r = .ok () r) : xs.forM check r = .ok () r := by
  induction xs with
  | nil => rfl
  | cons x xs ih =>
    rw [List.forall_mem_cons] at h
    exact (bind_of_ok h.1).trans (ih h.2)

namespace Script

variable {t : Script} {roots : List Root} {stop : Nat} {options : Options}

lemma Recoverable.checkLabels_row (h : t.Recoverable roots stop)
    (hlabels : ∀ f ∈ t.functions.records, f.checkLabels options = .ok ()) {row : Row}
    (hrow : row ∈ (t.looseRows roots).1) (id : RecordId) :
    (row.function id).checkLabels options = .ok () := by
  unfold Function.checkLabels
  cases hstrict : options.strictLabels with
  | false => rfl
  | true =>
    have hnone : (row.function id).code.filter Instruction.isLabel = [] := by
      refine List.filter_eq_nil_iff.mpr fun i hi hlabel => ?_
      rw [Row.function, row.code_nesting, List.mem_flatMap] at hi
      obtain ⟨p, hp, hi⟩ := hi
      obtain ⟨f, hf, hundeclared, -, -, hcode⟩ := h.exists_loose (.inl hrow) hp
      have hcheck := hlabels f hf
      rw [Function.checkLabels, hstrict, (h.owns f hf hundeclared).labels] at hcheck
      have hmarkers : (f.code.filter Instruction.isLabel).length = 0 := by
        by_contra hne
        rw [if_pos (by simpa [Registry.size, Registry.empty] using hne)] at hcheck
        cases hcheck
      rw [List.length_eq_zero_iff, List.filter_eq_nil_iff] at hmarkers
      exact hmarkers i (hcode ▸ hi) hlabel
    rw [hnone]
    rfl

/-- The code region after the count of its words gives back the script, with its other code in
functions of their own. -/
lemma Recoverable.code_reads (h : t.Recoverable roots stop)
    (hlabels : ∀ f ∈ t.functions.records, f.checkLabels options = .ok ())
    {vars : Registry Variable} (hvars : ∀ id, id ∈ vars.ids ↔ id ∈ t.vars.ids) {r : Reader}
    (hsize : r.bytes.size < 4 * UInt32.size) (hdvd : 4 ∣ (t.regionBytes roots).length)
    (hshows : r.Shows (bytesOfWord (UInt32.ofNat ((t.regionBytes roots).length / 4)) ++
      t.regionBytes roots)) :
    ∃ (found : Findings) (r' : Reader),
      Read.code options (t.shown.bare vars) r = .ok (found.apply (t.shown.bare vars)) r' ∧
        found.Complete t.shown ∧ found.Collects t roots := by
  have hregion : (r.skip 4).Shows (t.regionBytes roots) := hshows.skip
  have hlength : r.offset + 4 + (t.regionBytes roots).length = r.bytes.size := hregion.length_eq
  have hcount : (UInt32.ofNat ((t.regionBytes roots).length / 4)).toNat * 4 =
      (r.skip 4).remaining := by
    have hremaining : (r.skip 4).remaining = r.bytes.size - (r.offset + 4) := rfl
    rw [UInt32.toNat_ofNat_of_lt' (by omega), Nat.div_mul_cancel hdvd, hremaining]
    omega
  obtain ⟨found, r', hread, hfound, hcollects⟩ :=
    h.region_reads hvars (r := r.skip 4) hsize hregion
  refine ⟨found, r', ?_, hfound, hcollects⟩
  unfold Read.code
  rw [bind_of_ok (rfl : Read.offset r = .ok r.offset r), bind_of_ok (Read.word_apply hshows),
    bind_of_ok (rfl : (get : Read Reader) (r.skip 4) = .ok (r.skip 4) (r.skip 4)),
    if_neg (not_not.mpr hcount), bind_of_ok hread]
  refine bind_of_ok (Read.forM_apply fun f hf => ?_)
  have hcheck : f.checkLabels options = .ok () := by
    rw [hfound.apply_bare (fun f hf => (mem_shown.mp hf).2)] at hf
    rcases Findings.mem_of_mem_addGaps hf with hf | hf
    · exact hlabels f (mem_shown.mp hf).1
    · obtain ⟨gap, hgap, rfl⟩ := List.mem_map.mp hf
      obtain ⟨id, hgaps⟩ := hcollects.gaps
      obtain ⟨row, hrow, hfunction⟩ := forall₂_exists_right hgaps.forall₂ hgap
      rw [hfunction]
      exact h.checkLabels_row hlabels (List.mem_of_mem_filter hrow) _
  rw [Read.checkLabels, hcheck]
  rfl

/-- The container of a script that can be recovered is parsed as what its declared part holds, with all
other code in functions of their own. -/
theorem Recoverable.parse_container (h : t.Recoverable roots stop) (hwritable : t.Writable roots)
    (hlabels : ∀ f ∈ t.functions.records, f.checkLabels options = .ok ())
    (hstored : t.shown.IsStored (t.container roots).bytes.size)
    (hvars : ∀ id, id ∈ t.storedVars.ids ↔ id ∈ t.vars.ids)
    (hsize : (t.container roots).bytes.size < 4 * UInt32.size) :
    ∃ found : Findings,
      parse options (t.container roots).bytes = .ok (found.apply (t.shown.bare t.storedVars)) ∧
        found.Complete t.shown ∧ found.Collects t roots := by
  let region := t.regionBytes roots
  let count := bytesOfWord (UInt32.ofNat (region.length / 4))
  let header := bytesOfWords ((startsFrom headerSize t.sectionBytes).map fun start =>
    UInt32.ofNat (start / 4)) ++ bytesOfWord 0
  let declarations := header ++ t.sectionBytes.flatten
  have hbytes : (t.container roots).bytes.toList = magic ++ (declarations ++ (count ++ region)) := by
    rw [toList_container]
    simp only [containerBytes, declarations, header, List.append_assoc]
    rfl
  let r : Reader := ⟨(t.container roots).bytes, magic.length⟩
  have hshows : r.Shows (declarations ++ (count ++ region)) := ⟨magic, hbytes, rfl⟩
  have hdvd : 4 ∣ region.length := by
    obtain ⟨hlength, hstop⟩ := h.stands.length_regionBytes hwritable.code hwritable.tables
    rw [hlength]
    exact Nat.dvd_add hstop (Nat.dvd_mul_right 4 _)
  have hreach : headerSize + t.sectionBytes.flatten.length ≤ (t.container roots).bytes.size := by
    have hlength := hshows.length_eq
    have hheader : magic.length + header.length = headerSize := by
      simp only [header]
      rw [List.length_append, length_bytesOfWords, List.length_map, length_startsFrom]
      rfl
    have htotal : magic.length + (header.length + t.sectionBytes.flatten.length +
        (count ++ region).length) = (t.container roots).bytes.size := by
      rw [← List.length_append, ← List.length_append]
      exact hlength
    omega
  have hread := ReadsAt.declarations t.shown hstored (by rwa [sectionBytes_shown]) r _ rfl le_rfl
    hsize (by rw [sectionBytes_shown]; exact hshows)
  rw [sectionBytes_shown, storedVars_shown] at hread
  obtain ⟨found, r', hcode, hfound, hcollects⟩ := h.code_reads hlabels hvars
    (r := r.skip declarations.length) hsize hdvd hshows.skip
  have hmagic : (t.container roots).bytes.toList.take magic.length = magic := by
    rw [hbytes, List.take_left]
  have hscript : Read.script options r = .ok (found.apply (t.shown.bare t.storedVars)) r' := by
    rw [Read.script_eq, bind_of_ok hread]
    exact hcode
  refine ⟨found, ?_, hfound, hcollects⟩
  unfold parse
  rw [if_neg (not_not.mpr hmagic), show (⟨(t.container roots).bytes, magic.length⟩ : Reader) = r
    from rfl, hscript]

end Script

end ScriptContainer
