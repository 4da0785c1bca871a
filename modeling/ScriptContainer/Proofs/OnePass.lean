import ScriptContainer.Proofs.Buildable
import ScriptContainer.Proofs.Fixing

/-!
# Writing a container in one pass

Building writes declarations and code a second time over the first, and fills in the header and the
count of code words last. Someone who knows the targets, the offsets of the sections and that count
beforehand can write the same container from front to back.
-/

namespace ScriptContainer

/-- Let each of some writers go on where the one before it has ended, and note where each of them
starts. -/
def writeEach : List (Writer → Except Error Writer) → Writer → Except Error (List Nat × Writer)
  | [], w => .ok ([], w)
  | write :: rest, w => do
    let next ← write w
    let (starts, last) ← writeEach rest next
    return (w.position :: starts, last)

namespace Script

/-- Write the declarations of the tables of the script with the filler words after them. -/
def writeTables (s : Script) (w : Writer) : Except Error Writer :=
  .ok ((w.tables s.tables.records).words s.padding.tables)

/-- Write the count of code words and the code region. -/
def writeCode (s : Script) (codeWords : Nat) (w : Writer) : Except Error Writer := do
  let emission ← s.emit (w.word (UInt32.ofNat codeWords))
  return emission.writer

/-- What writes each section of a script whose code region takes `codeWords` words. -/
def sections (s : Script) (codeWords : Nat) : List (Writer → Except Error Writer) :=
  [fun w => .ok (w.words s.padding.front),
    fun w => w.functions s.declared,
    fun w => w.vars (s.variablesIn .static),
    s.writeTables,
    fun w => w.vars (s.variablesIn .constant),
    fun w => .ok (w.imports s.imports.records),
    fun w => w.vars (s.variablesIn .global),
    s.writeCode codeWords]

/-- Write a container from front to back: the magic bytes, the offsets of the sections in words, a
word that is zero, and the sections. The answer also holds where the sections have started. -/
def serialize (s : Script) (starts : List Nat) (codeWords : Nat) :
    Except Error (List Nat × Writer) :=
  writeEach (s.sections codeWords)
    (((Writer.empty.append magic).words (starts.map fun start => UInt32.ofNat (start / 4))).word 0)

end Script

/-- A section is written as the same bytes wherever a word may start, and a word may start after
it. -/
def WritesPart (write : Writer → Except Error Writer) (part : List UInt8) : Prop :=
  4 ∣ part.length ∧ ∀ w : Writer, 4 ∣ w.position → write w = .ok (w.append part)

lemma startsFrom_concat (start : Nat) (parts : List (List UInt8)) (last : List UInt8) :
    (startsFrom start (parts ++ [last])).dropLast = startsFrom start parts := by
  induction parts generalizing start with
  | nil => rfl
  | cons part parts ih =>
    rw [List.cons_append, startsFrom, startsFrom,
      List.dropLast_cons_of_ne_nil (by cases parts <;> exact List.cons_ne_nil _ _), ih]

lemma writeEach_eq {writes : List (Writer → Except Error Writer)} {parts : List (List UInt8)}
    (h : List.Forall₂ WritesPart writes parts) {w : Writer} (hw : 4 ∣ w.position) :
    writeEach writes w = .ok ((startsFrom w.position parts).dropLast, w.append parts.flatten) := by
  induction h generalizing w with
  | nil => rw [writeEach, List.flatten_nil, Writer.append_nil]; rfl
  | @cons write part writes parts hpart _ ih =>
    have hnext := Writer.four_dvd_position_append hw hpart.1
    rw [writeEach, hpart.2 w hw, ok_bind, ih hnext, ok_bind, Writer.position_append, startsFrom,
      List.dropLast_cons_of_ne_nil (by cases parts <;> exact List.cons_ne_nil _ _),
      Writer.append_append, List.flatten_cons]
    rfl

section Ends

variable {body? other? : RecordId → Option (Body .bound)} {seen : RecordId → Prop}

lemma Nesting.Proper.ends_dress (hsame : SameBodies body? other?) {n : Nesting}
    (h : n.Proper body? seen) {code : Body .bound}
    (hcode : untargetedCode code = untargetedCode n.code) (start : Nat) :
    (n.dress other? code).ends start = n.ends start := by
  induction n generalizing seen code start with
  | done => rfl
  | step i rest ih =>
    obtain ⟨j, more, rfl, hj, hmore⟩ := untargetedCode_cons_iff.mp hcode
    rw [Nesting.dress, List.headD_cons, List.tail_cons, ends, ends, size_eq_of_untargeted hj, ih h.2 hmore]
  | host i id inner rest ihi ihr =>
    obtain ⟨j, more, rfl, hj, hmore⟩ := untargetedCode_cons_iff.mp hcode
    obtain ⟨-, -, hbody, hinner, hrest⟩ := h
    obtain ⟨code', hcode', hagree⟩ := hsame id _ hbody
    rw [Nesting.dress, hcode', Option.getD_some, List.headD_cons, List.tail_cons, ends, ends,
      size_eq_of_untargeted hj, ihi hinner hagree, hinner.stops_dress hsame hagree,
      (hinner.dress hsame hagree).2.1, ihr hrest hmore]

lemma Follows.ends_dress (hsame : SameBodies body? other?) {tail schedule : List Scheduled}
    {start : Nat} {roots : List Root} (h : Follows body? tail seen start schedule roots) :
    forestEnds start (roots.map (Root.dress other?)) = forestEnds start roots := by
  induction h with
  | done => rfl
  | skip _ _ ih => exact ih
  | @root seen start root rest roots _ hbody hproper _ ih =>
    obtain ⟨code, hcode, hagree⟩ := hsame root.id _ hbody
    rw [List.map_cons, Root.dress_of_body? hcode, forestEnds, forestEnds,
      (hproper.dress hsame hagree).2.1, ih, Root.ends, Root.ends,
      hproper.stops_dress hsame hagree, hproper.ends_dress hsame hagree]

end Ends

namespace Script

variable {s laid after : Script} {options : Options} {roots : List Root} {stop : Nat}
  {built : Built}

lemma writeTables_part (s : Script) : WritesPart s.writeTables
    (bytesOfList Table.declaration s.tables.records ++ bytesOfWords s.padding.tables) := by
  refine ⟨four_dvd_append (four_dvd_bytesOfList Table.four_dvd_declaration _)
    (four_dvd_bytesOfWords _), fun w hw => ?_⟩
  rw [writeTables, Writer.tables_eq hw, Writer.words_eq, Writer.append_append]

lemma writeVars_part {vs : List Variable} (h : ∀ v ∈ vs, v.value.fits v.type) :
    WritesPart (fun w => w.vars vs) (bytesOfList Variable.bytes vs) :=
  ⟨four_dvd_bytesOfList Variable.four_dvd_bytes vs, fun _ hw => (Writer.vars_yields hw vs).eq_ok h⟩

lemma writeCode_part (h : s.Stands roots stop) (hall : s.EncodesAll roots) (codeWords : Nat) :
    WritesPart (s.writeCode codeWords)
      (bytesOfWord (UInt32.ofNat codeWords) ++ s.regionBytes roots) := by
  obtain ⟨hlength, hdvd⟩ := h.length_regionBytes hall.1 hall.2
  have hword : 4 ∣ (bytesOfWord (UInt32.ofNat codeWords)).length := ⟨1, rfl⟩
  refine ⟨four_dvd_append hword ?_, fun w hw => ?_⟩
  · rw [hlength]
    exact Nat.dvd_add hdvd (Nat.dvd_mul_right 4 _)
  · rw [writeCode, Writer.word, (h.emit_yields (Writer.four_dvd_position_append hw hword)).eq_ok hall,
      ok_bind, ← Writer.append_append]
    rfl

lemma sections_parts (h : s.Stands roots stop) (hs : s.Writable roots) (codeWords : Nat) :
    List.Forall₂ WritesPart (s.sections codeWords)
      (s.sectionBytes ++ [bytesOfWord (UInt32.ofNat codeWords) ++ s.regionBytes roots]) := by
  obtain ⟨hfunctions, hstatic, hconstant, hglobal⟩ := hs.values
  refine .cons ⟨four_dvd_bytesOfWords _, fun w _ => congrArg Except.ok (w.words_eq _)⟩ ?_
  refine .cons ⟨four_dvd_bytesOfList Function.four_dvd_declaration _, fun w hw =>
    (Writer.functions_yields hw _).eq_ok hfunctions⟩ ?_
  refine .cons (writeVars_part hstatic) (.cons s.writeTables_part (.cons (writeVars_part hconstant) ?_))
  refine .cons ⟨four_dvd_bytesOfList Import.four_dvd_bytes _, fun w hw =>
    congrArg Except.ok (Writer.imports_eq hw _)⟩ ?_
  exact .cons (writeVars_part hglobal)
    (.cons (writeCode_part h ⟨hs.code, hs.tables⟩ codeWords) .nil)

lemma serialize_eq (h : s.Stands roots stop) (hs : s.Writable roots) :
    s.serialize (startsFrom headerSize s.sectionBytes) ((s.regionBytes roots).length / 4) =
      .ok (startsFrom headerSize s.sectionBytes, ⟨(s.container roots).bytes⟩) := by
  let starts := startsFrom headerSize s.sectionBytes
  let header := magic ++
    (bytesOfWords (starts.map fun start => UInt32.ofNat (start / 4)) ++ bytesOfWord 0)
  have hheader : ((Writer.empty.append magic).words
      (starts.map fun start => UInt32.ofNat (start / 4))).word 0 = Writer.empty.append header := by
    rw [Writer.words_eq, Writer.word, Writer.append_append, Writer.append_append]
  have hposition : (Writer.empty.append header).position = headerSize := by
    rw [Writer.position_empty_append]
    simp only [header, starts, List.length_append, length_bytesOfWords, List.length_map,
      length_startsFrom, length_bytesOfWord]
    rfl
  have hparts := sections_parts h hs ((s.regionBytes roots).length / 4)
  rw [serialize, hheader, writeEach_eq hparts (by rw [hposition]; exact ⟨11, rfl⟩), hposition,
    startsFrom_concat, Writer.append_append]
  refine congrArg (fun w => Except.ok (starts, w)) (congrArg Writer.empty.append ?_)
  simp only [containerBytes, header, starts, List.flatten_append, List.flatten_cons,
    List.flatten_nil, List.append_nil, List.append_assoc]

/-- One pass over a script writes the container `built`, whose sections start at `starts` and whose
code region takes `codeWords` words. -/
structure WrittenOnce (s : Script) (built : Built) (starts : List Nat) (codeWords : Nat) : Prop where
  /-- The header holds the offsets at which the sections turn out to start. -/
  serialize : s.serialize starts codeWords = .ok (starts, ⟨built.bytes⟩)
  /-- The code region follows the count of its words, which begins the last section. -/
  codeBase : ∃ start, starts.getLast? = some start ∧ start + 4 = built.codeBase
  /-- The count of code words is the right one. -/
  size : built.bytes.size = built.codeBase + 4 * codeWords
  /-- Offsets and count are those that the words of the header hold. -/
  words : (∀ start ∈ starts, 4 ∣ start) ∧ (built.bytes.size < 4 * UInt32.size →
    (∀ start ∈ starts, (UInt32.ofNat (start / 4)).toNat = start / 4) ∧
      (UInt32.ofNat codeWords).toNat = codeWords)
  /-- The code region and the ends of its instructions do not depend on where it is written. -/
  emit : ∀ w : Writer, 4 ∣ w.position → ∃ emission, s.emit w = .ok emission ∧
    emission.writer = w.append (built.bytes.toList.drop built.codeBase) ∧
    emission.ends = built.ends

lemma IsBuilt.writtenOnce (h : s.IsBuilt options laid roots stop built after) :
    after.WrittenOnce built (startsFrom headerSize after.sectionBytes)
      ((after.regionBytes (roots.map (Root.dress after.body?))).length / 4) := by
  have hstands := h.standsAfter
  obtain ⟨hlength, hdvd⟩ := hstands.length_regionBytes h.writableAfter.code h.writableAfter.tables
  have hbase : built.codeBase = headerSize + after.sectionBytes.flatten.length + 4 := by
    rw [h.built, codeBase_container]
  have hsize := h.size_eq
  have hbounds := startsFrom_bounds (show 4 ∣ headerSize from ⟨11, rfl⟩) after.four_dvd_sectionBytes
  refine ⟨?_, ?_, ?_, ⟨fun start hs => (hbounds start hs).1, fun hsmall => ⟨fun start hs => ?_, ?_⟩⟩,
    fun w hw => ⟨_, h.emit_eq hw, ?_, ?_⟩⟩
  · rw [h.built]
    exact serialize_eq hstands h.writableAfter
  · refine ⟨headerSize + after.sectionBytes.flatten.length, ?_, hbase.symm⟩
    rw [List.getLast?_eq_getElem?, length_startsFrom]
    exact startsFrom_last headerSize after.sectionBytes
  · omega
  · have := (hbounds start hs).2
    exact UInt32.toNat_ofNat_of_lt' (by omega)
  · exact UInt32.toNat_ofNat_of_lt' (by omega)
  · rw [h.built, drop_codeBase_container]
    rfl
  · rw [h.built]
    rfl

/-- The first writing has recorded the ends of instructions that the second one records. -/
lemma IsBuilt.ends_eq_written (h : s.IsBuilt options laid roots stop built after) :
    built.ends = (forestEnds 0 roots).foldl Registry.insert .empty := by
  rw [h.built]
  change (forestEnds 0 (roots.map (Root.dress after.body?))).foldl Registry.insert .empty = _
  rw [h.stands.follows.ends_dress (sameBodies_of_untargeted h.agrees)]

/-- Declarations and code are the only sections that depend on targets and addresses. -/
lemma sections_of_untargeted {t : Script} (h : t.untargeted = s.untargeted) (codeWords : Nat)
    {i : Nat} (hdeclarations : i ≠ 1) (hcode : i ≠ 7) :
    (t.sections codeWords)[i]? = (s.sections codeWords)[i]? := by
  obtain ⟨himports, hvars, htables, hpadding⟩ := rest_eq_of_untargeted h
  have hscope (scope : Scope) : t.variablesIn scope = s.variablesIn scope := by
    rw [variablesIn, variablesIn, hvars]
  have hwrite : t.writeTables = s.writeTables := by
    unfold writeTables
    rw [htables, hpadding]
  have hsections : t.sections codeWords = ((s.sections codeWords).set 1
      fun w => w.functions t.declared).set 7 (t.writeCode codeWords) := by
    simp only [sections, hpadding, hscope, hwrite, himports]
    rfl
  rw [hsections, List.getElem?_set_ne hcode.symm, List.getElem?_set_ne hdeclarations.symm]

/-- One pass over the script that building leaves behind writes the container that it returns. The
first writing has recorded the same offsets and the same ends, and setting targets has changed
nothing in the other sections. -/
theorem build_writtenOnce (h : build options s = .ok built after) :
    ∃ starts codeWords, after.WrittenOnce built starts codeWords ∧
      ∃ stop laid first emission,
        assignOffsets s = .ok stop laid ∧ laid.opening = .ok first ∧
        laid.emit first.writer = .ok emission ∧
        applyFixups emission.ends options laid = .ok () after ∧
        first.sections = starts ∧ first.writer.position = built.codeBase ∧
        emission.ends = built.ends ∧
        ∀ i, i ≠ 1 → i ≠ 7 → (after.sections codeWords)[i]? = (laid.sections codeWords)[i]? := by
  obtain ⟨laid, roots, stop, hbuilt⟩ := (build_outcome options s).of_ok h
  refine ⟨_, _, hbuilt.writtenOnce, stop, laid, _, _, hbuilt.offsets,
    (opening_yields laid).eq_ok hbuilt.writable.values,
    hbuilt.toIsPrepared.emit_eq laid.four_dvd_position_opening, hbuilt.fixed,
    (starts_of_untargeted hbuilt.agrees).symm, ?_, hbuilt.ends_eq_written.symm,
    fun i => sections_of_untargeted hbuilt.agrees _⟩
  · rw [Writer.position_empty_append, ← length_openingBytes hbuilt.agrees, hbuilt.built]
    rfl

/-- A function with a jump and a label, a text, and a table whose elements do not fill its last
word. -/
def satchel : Script :=
  let title : Variable := ⟨3, some "title", .static, .string, 0, .string "Satchel"⟩
  let coins : Table := ⟨4, some "coins", .byte, 0, 0, .bytes [1, 2, 3, 4, 5]⟩
  let condition : Expression .bound := [.symbol (.variable ⟨.script, 3⟩)]
  let code : Body .bound := [.if condition 0 0 0, .label, .endIf, .return]
  let run := { (Function.new 1).addLabel ⟨2, some "inside", 0⟩ with code }
  ((Script.new.addVariable title).addTable coins).addFunction run

theorem satchel_writtenOnce : ∃ built after starts codeWords,
    build .lenient satchel = .ok built after ∧ after.WrittenOnce built starts codeWords := by
  have hbuildable : satchel.Buildable .lenient := by decide
  obtain ⟨built, after, hbuild⟩ := hbuildable.exists_build
  obtain ⟨starts, codeWords, honce, -⟩ := build_writtenOnce hbuild
  exact ⟨built, after, starts, codeWords, hbuild, honce⟩

end Script

end ScriptContainer
