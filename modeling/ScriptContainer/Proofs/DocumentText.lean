import ScriptContainer.Document.Export
import ScriptContainer.Document.Import
import ScriptContainer.Proofs.FloatNumerals
import ScriptContainer.Proofs.InstructionText

/-!
# Documents that are read back

The text of a document is read as the document exactly if every float in it has a numeral that is read as
that float, and if its instructions are not nested too deeply. A variable keeps a float without numeral by
its bits, a table does not.
-/

namespace ScriptContainer

open Number Json

/-- The float is read from what is written for it. -/
def Number.Single.IsCarried (x : Single) : Prop := single? (ofSingle x) = some x

instance (x : Single) : Decidable x.IsCarried := inferInstanceAs (Decidable (_ = _))

lemma Number.Single.isCarried_iff {x : Single} :
    x.IsCarried ↔ x.isFinite = true ∧ (FloatStyle.document.numeral x).toSingle? = some x := by
  unfold IsCarried ofSingle
  split
  case isTrue h => exact (and_iff_right h).symm
  case isFalse h =>
    refine iff_of_false (fun h => nomatch h) ?_
    exact fun hfinite => h hfinite.1

example : Single.IsCarried ⟨0x3dcccccd⟩ := by decide +kernel

/-- The floats among the values of a table. -/
def TableValues.singles {α : Type} : TableValues α → List Single
  | .floats xs => xs
  | _ => []

lemma Scope.ofJson?_word (scope : Scope) : ofJson? (ofText scope.word) = some scope := by
  have hword : text? (.string (escape scope.word.toList)) = some scope.word := text?_ofText scope.word
  unfold ofText ofJson?
  dsimp only
  rw [hword]
  cases scope <;> rfl

lemma words3?_toList (w : Words3) : words3? (ofList ofWord w.toList) = some w := by
  rw [words3?, list?_ofList word?_ofWord]
  rfl

lemma words5?_toList (w : Words5) : words5? (ofList ofWord w.toList) = some w := by
  rw [words5?, list?_ofList word?_ofWord]
  rfl

lemma Import.ofJson?_toJson (i : Import) : ofJson? i.toJson = some i := by
  simp [ofJson?, toJson, fields?_ofMembers, Fields.required, Fields.optional_eq_oneOr, word?_ofWord,
    words5?_toList]

lemma Label.ofJson?_toJson (l : Label) : ofJson? l.toJson = some l := by
  simp [ofJson?, toJson, fields?_ofMembers, Fields.required, Fields.optional_eq_oneOr, word?_ofWord]

namespace Document

/-- The float that a value holds as a number. -/
def Value.singles : Value → List Single
  | .float x => [x]
  | _ => []

lemma Value.ofJson?_raw (value : Json) :
    ofJson? (ofTagged "raw" value) = (do
      let fields ← fields? value
      let code ← fields.required "code" word?
      let word ← fields.required "value" word?
      return .raw code word) := by
  rw [ofJson?, tagged?_ofTagged]
  simp

lemma Value.ofJson?_toJson_iff (v : Value) :
    ofJson? v.toJson = some v ↔ ∀ x ∈ v.singles, x.IsCarried := by
  cases v with
  | int value =>
    simp [ofJson?, toJson, tagged?_ofTagged, signed?_ofSigned, singles]
  | float x => simp [ofJson?, toJson, tagged?_ofTagged, singles, Single.IsCarried]
  | floatBits bits => simp [ofJson?, toJson, tagged?_ofTagged, word?_ofWord, singles]
  | string text => simp [ofJson?, toJson, tagged?_ofTagged, text?_ofText, singles]
  | raw code value =>
    have hcode : Fields.required [("code", ofWord code), ("value", ofWord value)] "code" word? =
        some code := Fields.required_eq (by simp) (word?_ofWord code)
    have hvalue : Fields.required [("code", ofWord code), ("value", ofWord value)] "value" word? =
        some value := Fields.required_eq (by simp) (word?_ofWord value)
    have hread : ofJson? (toJson (.raw code value)) = some (.raw code value) := by
      rw [toJson, ofJson?_raw, fields?_ofMembers, Option.bind_eq_bind, Option.bind_some, hcode,
        Option.bind_eq_bind, Option.bind_some, hvalue]
      rfl
    simp [hread, singles]

lemma Variable.ofJson?_toJson_iff (v : Variable) :
    ofJson? v.toJson = some v ↔ ∀ x ∈ v.value.singles, x.IsCarried := by
  rw [← Value.ofJson?_toJson_iff]
  obtain ⟨id, name, scope, flags, value⟩ := v
  simp [ofJson?, toJson, fields?_ofMembers, Fields.required, Fields.optional_eq_oneOr, word?_ofWord,
    byte?_ofByte, Scope.ofJson?_word, Option.bind_eq_some_iff]

lemma valuesOfJson?_eq_iff (values : TableValues String) :
    valuesOfJson? (valuesToJson values) = some values ↔ ∀ x ∈ values.singles, x.IsCarried := by
  cases values with
  | vars texts =>
    simp [valuesOfJson?, valuesToJson, tagged?_ofTagged, list?_ofList text?_ofText, TableValues.singles]
  | ints values =>
    simp [valuesOfJson?, valuesToJson, tagged?_ofTagged, list?_ofList signed?_ofSigned,
      TableValues.singles]
  | floats xs =>
    simp [valuesOfJson?, valuesToJson, tagged?_ofTagged, list?_ofList_eq_some_iff, TableValues.singles,
      Single.IsCarried]
  | bytes values =>
    simp [valuesOfJson?, valuesToJson, tagged?_ofTagged, list?_ofList byte?_ofByte, TableValues.singles]

lemma Table.ofJson?_toJson (t : Table) :
    ofJson? t.toJson = (do
      let values ← valuesOfJson? (valuesToJson t.values)
      return { t with values }) := by
  obtain ⟨id, name, start, values⟩ := t
  simp [ofJson?, toJson, fields?_ofMembers, Fields.required, Fields.optional_eq_oneOr, some_bind,
    word?_ofWord, -Option.bind_eq_bind]

lemma Table.ofJson?_toJson_iff (t : Table) :
    ofJson? t.toJson = some t ↔ ∀ x ∈ t.values.singles, x.IsCarried := by
  rw [← valuesOfJson?_eq_iff, ofJson?_toJson]
  obtain ⟨id, name, start, values⟩ := t
  simp [Option.bind_eq_some_iff]

/-- The floats of the variables and tables of a function. -/
def Function.singles (f : Function) : List Single :=
  f.vars.flatMap (fun v => v.value.singles) ++ f.tables.flatMap fun t => t.values.singles

/-- The instructions of the function are not nested too deeply. -/
def Function.IsShallow (f : Function) : Prop := ∀ i ∈ f.code, i.toJson.height ≤ instructionLevels

lemma Function.ofJson?_toJson (f : Function) :
    ofJson? f.toJson = (do
      let vars ← list? Variable.ofJson? (ofList Variable.toJson f.vars)
      let tables ← list? Table.ofJson? (ofList Table.toJson f.tables)
      let code ← list? Instruction.ofJson? (ofList Instruction.toJson f.code)
      return { f with vars, tables, code }) := by
  obtain ⟨id, name, isPublic, isInline, isDeclared, unknown, codeStart, codeEnd, vars, tables, labels,
    code⟩ := f
  simp [ofJson?, toJson, fields?_ofMembers, Fields.required, Fields.optional_eq_oneOr, some_bind,
    word?_ofWord, bool?_bool, words3?_toList, list?_ofList Label.ofJson?_toJson, -Option.bind_eq_bind]

lemma Function.ofJson?_toJson_iff (f : Function) :
    ofJson? f.toJson = some f ↔ (∀ x ∈ f.singles, x.IsCarried) ∧ f.IsShallow := by
  have hvars : list? Variable.ofJson? (ofList Variable.toJson f.vars) = some f.vars ↔
      ∀ v ∈ f.vars, ∀ x ∈ v.value.singles, x.IsCarried :=
    list?_ofList_eq_some_iff.trans (forall₂_congr fun v _ => v.ofJson?_toJson_iff)
  have htables : list? Table.ofJson? (ofList Table.toJson f.tables) = some f.tables ↔
      ∀ t ∈ f.tables, ∀ x ∈ t.values.singles, x.IsCarried :=
    list?_ofList_eq_some_iff.trans (forall₂_congr fun t _ => t.ofJson?_toJson_iff)
  have hcode : list? Instruction.ofJson? (ofList Instruction.toJson f.code) = some f.code ↔ f.IsShallow :=
    list?_ofList_eq_some_iff.trans (forall₂_congr fun i _ => i.ofJson?_toJson_iff)
  have hread : ofJson? f.toJson = some f ↔
      list? Variable.ofJson? (ofList Variable.toJson f.vars) = some f.vars ∧
      list? Table.ofJson? (ofList Table.toJson f.tables) = some f.tables ∧
      list? Instruction.ofJson? (ofList Instruction.toJson f.code) = some f.code := by
    rw [ofJson?_toJson]
    obtain ⟨id, name, isPublic, isInline, isDeclared, unknown, codeStart, codeEnd, vars, tables, labels,
      code⟩ := f
    simp [Option.bind_eq_some_iff]
  rw [hread, hvars, htables, hcode, singles, List.forall_mem_append, List.forall_mem_flatMap,
    List.forall_mem_flatMap, and_assoc]

lemma paddingOfJson?_paddingToJson (p : Padding) : paddingOfJson? (paddingToJson p) = some p := by
  rw [paddingOfJson?, paddingToJson, list?_ofList (list?_ofList word?_ofWord)]
  rfl

/-- The filler words under their key. -/
def Padding.listed (p : Padding) : List Json := if p.isNone then [] else [paddingToJson p]

lemma under_padding (p : Padding) :
    Fields.under (if p.isNone then [] else [("padding", paddingToJson p)]) "padding" =
      Padding.listed p := by
  unfold Padding.listed
  split
  · rfl
  · exact Fields.under_cons_self "padding" _ []

lemma under_padding_of_ne {key : String} (h : "padding" ≠ key) (p : Padding) :
    Fields.under (if p.isNone then [] else [("padding", paddingToJson p)]) key = [] := by
  split
  · rfl
  · exact Fields.under_cons_of_ne h _ []

lemma oneOr_padding (p : Padding) :
    Fields.oneOr paddingOfJson? .none (Padding.listed p) = some p := by
  unfold Padding.listed
  split
  case isTrue h =>
    obtain ⟨front, tables, code⟩ := p
    simp only [Padding.isNone, Bool.and_eq_true, List.isEmpty_iff] at h
    obtain ⟨⟨rfl, rfl⟩, rfl⟩ := h
    rfl
  case isFalse => rw [Fields.oneOr_singleton, paddingOfJson?_paddingToJson]

/-- The variables of a document and of its functions. -/
def allVars (d : Document) : List Variable := d.vars ++ d.functions.flatMap Function.vars

/-- The tables of a document and of its functions. -/
def allTables (d : Document) : List Table := d.tables ++ d.functions.flatMap Function.tables

/-- The floats of the variables and tables of a document. -/
def singles (d : Document) : List Single :=
  d.allVars.flatMap (fun v => v.value.singles) ++ d.allTables.flatMap fun t => t.values.singles

lemma forall_mem_singles {d : Document} {P : Single → Prop} :
    (∀ x ∈ d.singles, P x) ↔ (∀ v ∈ d.vars, ∀ x ∈ v.value.singles, P x) ∧
      (∀ t ∈ d.tables, ∀ x ∈ t.values.singles, P x) ∧ ∀ f ∈ d.functions, ∀ x ∈ f.singles, P x := by
  simp only [singles, allVars, allTables, Function.singles, List.forall_mem_append,
    List.forall_mem_flatMap, forall_and]
  tauto

/-- The instructions of the document are not nested too deeply. -/
def IsShallow (d : Document) : Prop := ∀ f ∈ d.functions, f.IsShallow

lemma ofJson?_toJson (d : Document) :
    ofJson? d.toJson = (do
      let vars ← list? Variable.ofJson? (ofList Variable.toJson d.vars)
      let tables ← list? Table.ofJson? (ofList Table.toJson d.tables)
      let functions ← list? Function.ofJson? (ofList Function.toJson d.functions)
      return { d with vars, tables, functions }) := by
  obtain ⟨imports, vars, tables, functions, padding⟩ := d
  simp [ofJson?, toJson, fields?_ofMembers, Fields.optional_eq_oneOr, some_bind,
    list?_ofList Import.ofJson?_toJson, under_padding, under_padding_of_ne, oneOr_padding,
    -Option.bind_eq_bind]

lemma ofJson?_toJson_iff (d : Document) :
    ofJson? d.toJson = some d ↔ (∀ x ∈ d.singles, x.IsCarried) ∧ d.IsShallow := by
  have hvars : list? Variable.ofJson? (ofList Variable.toJson d.vars) = some d.vars ↔
      ∀ v ∈ d.vars, ∀ x ∈ v.value.singles, x.IsCarried :=
    list?_ofList_eq_some_iff.trans (forall₂_congr fun v _ => v.ofJson?_toJson_iff)
  have htables : list? Table.ofJson? (ofList Table.toJson d.tables) = some d.tables ↔
      ∀ t ∈ d.tables, ∀ x ∈ t.values.singles, x.IsCarried :=
    list?_ofList_eq_some_iff.trans (forall₂_congr fun t _ => t.ofJson?_toJson_iff)
  have hfunctions : list? Function.ofJson? (ofList Function.toJson d.functions) = some d.functions ↔
      ∀ f ∈ d.functions, (∀ x ∈ f.singles, x.IsCarried) ∧ f.IsShallow :=
    list?_ofList_eq_some_iff.trans (forall₂_congr fun f _ => f.ofJson?_toJson_iff)
  have hread : ofJson? d.toJson = some d ↔
      list? Variable.ofJson? (ofList Variable.toJson d.vars) = some d.vars ∧
      list? Table.ofJson? (ofList Table.toJson d.tables) = some d.tables ∧
      list? Function.ofJson? (ofList Function.toJson d.functions) = some d.functions := by
    rw [ofJson?_toJson]
    obtain ⟨imports, vars, tables, functions, padding⟩ := d
    simp [Option.bind_eq_some_iff]
  rw [hread, hvars, htables, hfunctions, forall_mem_singles, IsShallow, forall₂_and, and_assoc, and_assoc]

section Refused

lemma single?_ofSingle_eq_none {x : Single} (h : ¬ x.isFinite = true) : single? (ofSingle x) = none := by
  rw [ofSingle, if_neg h]
  rfl

variable {x : Single}

lemma valuesOfJson?_eq_none {values : TableValues String} (hx : x ∈ values.singles)
    (h : ¬ x.isFinite = true) : valuesOfJson? (valuesToJson values) = none := by
  cases values with
  | vars _ | ints _ | bytes _ => cases hx
  | floats xs =>
    have hlist : list? single? (ofList ofSingle xs) = none :=
      list?_ofList_eq_none hx (single?_ofSingle_eq_none h)
    simp [valuesOfJson?, valuesToJson, tagged?_ofTagged, hlist]

lemma Table.ofJson?_eq_none {t : Table} (hx : x ∈ t.values.singles) (h : ¬ x.isFinite = true) :
    ofJson? t.toJson = none := by
  rw [ofJson?_toJson, valuesOfJson?_eq_none hx h]
  rfl

lemma Function.ofJson?_eq_none {f : Function} {t : Table} (ht : t ∈ f.tables) (hx : x ∈ t.values.singles)
    (h : ¬ x.isFinite = true) : ofJson? f.toJson = none := by
  rw [ofJson?_toJson, list?_ofList_eq_none ht (Table.ofJson?_eq_none hx h)]
  simp

lemma ofJson?_eq_none {d : Document} {t : Table} (ht : t ∈ d.allTables) (hx : x ∈ t.values.singles)
    (h : ¬ x.isFinite = true) : ofJson? d.toJson = none := by
  rw [ofJson?_toJson]
  rcases List.mem_append.mp ht with ht | ht
  · rw [list?_ofList_eq_none ht (Table.ofJson?_eq_none hx h)]
    simp
  · obtain ⟨f, hf, ht⟩ := List.mem_flatMap.mp ht
    rw [list?_ofList_eq_none hf (Function.ofJson?_eq_none ht hx h)]
    simp

end Refused

section Written

open Numeral

lemma made_ofSingle (x : Single) : (ofSingle x).Made IsWritten := by
  unfold ofSingle
  split
  · exact .number (FloatStyle.isWritten_numeral _ x)
  · exact .null

lemma made_word (w : UInt32) : (ofWord w).Made IsWritten :=
  made_ofWord (fun w => isWritten_ofNat w.toNat) w

lemma made_byte (b : UInt8) : (ofByte b).Made IsWritten := .number (isWritten_ofNat _)

lemma made_signed (n : Int32) : (ofSigned n).Made IsWritten := .number (isWritten_ofInt _)

lemma made_nameMember (name : Option String) : ∀ m ∈ nameMember name, m.2.Made IsWritten := by
  cases name with
  | none => exact List.forall_mem_nil _
  | some name => exact List.forall_mem_singleton.mpr (made_ofText name)

lemma made_listMember {α : Type} (key : String) {write : α → Json} (h : ∀ x, (write x).Made IsWritten)
    (xs : List α) : ∀ m ∈ listMember key write xs, m.2.Made IsWritten := by
  unfold listMember
  split
  · exact List.forall_mem_nil _
  · exact List.forall_mem_singleton.mpr (made_ofList fun x _ => h x)

lemma made_words (ws : List UInt32) : (ofList ofWord ws).Made IsWritten :=
  made_ofList fun w _ => made_word w

lemma Value.made_toJson (v : Value) : v.toJson.Made IsWritten := by
  cases v with
  | int value => exact made_ofTagged (made_signed value)
  | float x => exact made_ofTagged (made_ofSingle x)
  | floatBits bits => exact made_ofTagged (made_word bits)
  | string text => exact made_ofTagged (made_ofText text)
  | raw code value => exact made_ofTagged (made_ofMembers (by simp [made_word]))

lemma Variable.made_toJson (v : Variable) : v.toJson.Made IsWritten := by
  refine made_ofMembers (List.forall_mem_append.mpr ⟨List.forall_mem_append.mpr ⟨?_, ?_⟩, ?_⟩)
  · exact List.forall_mem_singleton.mpr (made_word v.id)
  · exact made_nameMember v.name
  · simp only [List.forall_mem_cons]
    exact ⟨made_ofText _, made_byte v.flags, v.value.made_toJson, List.forall_mem_nil _⟩

lemma made_import (i : Import) : i.toJson.Made IsWritten := by
  refine made_ofMembers (List.forall_mem_append.mpr ⟨List.forall_mem_append.mpr ⟨?_, ?_⟩, ?_⟩)
  · exact List.forall_mem_singleton.mpr (made_word i.id)
  · exact made_nameMember i.name
  · exact List.forall_mem_singleton.mpr (made_words _)

lemma made_label (l : Label) : l.toJson.Made IsWritten := by
  refine made_ofMembers (List.forall_mem_append.mpr ⟨List.forall_mem_append.mpr ⟨?_, ?_⟩, ?_⟩)
  · exact List.forall_mem_singleton.mpr (made_word l.id)
  · exact made_nameMember l.name
  · exact List.forall_mem_singleton.mpr (made_word l.address)

lemma made_valuesToJson (values : TableValues String) : (valuesToJson values).Made IsWritten := by
  cases values with
  | vars texts => exact made_ofTagged (made_ofList fun text _ => made_ofText text)
  | ints values => exact made_ofTagged (made_ofList fun n _ => made_signed n)
  | floats xs => exact made_ofTagged (made_ofList fun x _ => made_ofSingle x)
  | bytes values => exact made_ofTagged (made_ofList fun b _ => made_byte b)

lemma Table.made_toJson (t : Table) : t.toJson.Made IsWritten := by
  refine made_ofMembers (List.forall_mem_append.mpr ⟨List.forall_mem_append.mpr ⟨?_, ?_⟩, ?_⟩)
  · exact List.forall_mem_singleton.mpr (made_word t.id)
  · exact made_nameMember t.name
  · simp only [List.forall_mem_cons]
    exact ⟨made_word t.start, made_valuesToJson t.values, List.forall_mem_nil _⟩

lemma Function.made_toJson (f : Function) : f.toJson.Made IsWritten := by
  refine made_ofMembers ?_
  simp only [List.forall_mem_append, List.forall_mem_cons]
  refine ⟨⟨⟨⟨⟨⟨⟨made_word f.id, List.forall_mem_nil _⟩, made_nameMember f.name⟩, .bool _, .bool _,
    .bool _, made_words _, made_word _, made_word _, List.forall_mem_nil _⟩, ?_⟩, ?_⟩, ?_⟩, ?_,
    List.forall_mem_nil _⟩
  · exact made_listMember _ Variable.made_toJson f.vars
  · exact made_listMember _ Table.made_toJson f.tables
  · exact made_listMember _ made_label f.labels
  · exact made_ofList fun i _ => i.made_toJson fun w => isWritten_ofNat w.toNat

lemma made_paddingToJson (p : Padding) : (paddingToJson p).Made IsWritten :=
  made_ofList fun words _ => made_words words

lemma made_toJson (d : Document) : d.toJson.Made IsWritten := by
  refine made_ofMembers ?_
  simp only [List.forall_mem_append, List.forall_mem_cons]
  refine ⟨⟨?_, ?_, ?_, ?_, List.forall_mem_nil _⟩, ?_⟩
  · exact made_ofList fun i _ => made_import i
  · exact made_ofList fun v _ => v.made_toJson
  · exact made_ofList fun t _ => t.made_toJson
  · exact made_ofList fun f _ => f.made_toJson
  · split
    · exact List.forall_mem_nil _
    · exact List.forall_mem_singleton.mpr (made_paddingToJson d.padding)

end Written

lemma ofText?_text (d : Document) (indented : Bool) : ofText? (d.text indented) = ofJson? d.toJson := by
  rw [ofText?, text, parse?_render d.made_toJson]
  rfl

end Document

namespace Script

/-- All floats in tables are finite. -/
def HasFiniteTables (s : Script) : Prop :=
  ∀ entry ∈ s.allTables, ∀ x ∈ entry.2.values.singles, x.isFinite = true

/-- How the text that is written for a script is read. -/
structure TextReading (s : Script) (text : String) : Prop where
  /-- The document is read from the text exactly if all floats in tables are finite, each finite float is
  read from its numeral, and the instructions are not nested too deeply. -/
  reads_iff : Document.ofText? text = some (.ofScript s) ↔ s.HasFiniteTables ∧
    (∀ x ∈ (Document.ofScript s).singles, x.isFinite = true →
      (FloatStyle.document.numeral x).toSingle? = some x) ∧
    (Document.ofScript s).IsShallow
  /-- A text that is read has the script of the document. -/
  imports : Document.ofText? text = some (.ofScript s) → importText text = (Document.ofScript s).toScript
  /-- A text with an infinite float or a NaN in a table is refused. -/
  refused : ¬ s.HasFiniteTables → importText text = .error .notADocument

lemma singles_spellValues (ctx : Context) (values : TableValues VarRef) :
    (Document.spellValues ctx values).singles = values.singles := by
  cases values <;> rfl

lemma isFinite_of_mem_ofValue {type : ValueType} {value : Value} {x : Single}
    (hx : x ∈ (Document.Value.ofValue type value).singles) : x.isFinite = true := by
  cases value with
  | int _ | string _ | raw _ => cases hx
  | float y =>
    by_cases hy : y.isFinite = true
    · rw [Document.Value.ofValue, if_pos hy] at hx
      rwa [List.mem_singleton.mp hx]
    · rw [Document.Value.ofValue, if_neg hy] at hx
      cases hx

lemma exists_of_mem_allVars_ofScript {s : Script} {v : Document.Variable}
    (h : v ∈ (Document.ofScript s).allVars) : ∃ record, v = Document.Variable.ofRecord record := by
  rcases List.mem_append.mp h with h | h
  · obtain ⟨record, -, rfl⟩ := List.mem_map.mp h
    exact ⟨record, rfl⟩
  · obtain ⟨f, hf, h⟩ := List.mem_flatMap.mp h
    obtain ⟨function, -, rfl⟩ := List.mem_map.mp hf
    obtain ⟨record, -, rfl⟩ := List.mem_map.mp h
    exact ⟨record, rfl⟩

lemma exists_mem_allTables_ofScript {s : Script} {x : Single} :
    (∃ t ∈ (Document.ofScript s).allTables, x ∈ t.values.singles) ↔
      ∃ entry ∈ s.allTables, x ∈ entry.2.values.singles := by
  simp [Document.allTables, Document.ofScript, allTables, Document.Function.ofRecord,
    Document.Table.ofRecord, singles_spellValues, or_and_right, exists_or]

lemma isFinite_singles_iff {s : Script} :
    (∀ x ∈ (Document.ofScript s).singles, x.isFinite = true) ↔ s.HasFiniteTables := by
  constructor
  · intro h entry hentry x hx
    obtain ⟨t, ht, hx⟩ := exists_mem_allTables_ofScript.mpr ⟨entry, hentry, hx⟩
    exact h x (List.mem_append_right _ (List.mem_flatMap.mpr ⟨t, ht, hx⟩))
  · intro h x hx
    rcases List.mem_append.mp hx with hx | hx
    · obtain ⟨v, hv, hx⟩ := List.mem_flatMap.mp hx
      obtain ⟨record, rfl⟩ := exists_of_mem_allVars_ofScript hv
      exact isFinite_of_mem_ofValue hx
    · obtain ⟨t, ht, hx⟩ := List.mem_flatMap.mp hx
      obtain ⟨entry, hentry, hx⟩ := exists_mem_allTables_ofScript.mp ⟨t, ht, hx⟩
      exact h entry hentry x hx

lemma importText_eq_of_ofText? {text : String} {d : Document} (h : Document.ofText? text = some d) :
    importText text = d.toScript := by
  rw [importText, h]

lemma importText_exportText_of_not_finite {s : Script} (h : ¬ s.HasFiniteTables) (indented : Bool) :
    importText (s.exportText indented) = .error .notADocument := by
  simp only [HasFiniteTables, not_forall] at h
  obtain ⟨entry, hentry, x, hx, hfinite⟩ := h
  obtain ⟨t, ht, hx⟩ := exists_mem_allTables_ofScript.mpr ⟨entry, hentry, hx⟩
  rw [importText, exportText, Document.ofText?_text, Document.ofJson?_eq_none ht hx hfinite]

/-- On one line or indented, the text of a script carries its document, with all that is left out of it,
unless a table holds an infinite float or a NaN, a numeral is read as another float, or an instruction is
nested too deeply. -/
theorem exportText_reading (s : Script) (indented : Bool) : s.TextReading (s.exportText indented) := by
  refine ⟨?_, importText_eq_of_ofText?, fun h => importText_exportText_of_not_finite h indented⟩
  have hcarried : (∀ x ∈ (Document.ofScript s).singles, x.IsCarried) ↔
      (∀ x ∈ (Document.ofScript s).singles, x.isFinite = true) ∧
      ∀ x ∈ (Document.ofScript s).singles, x.isFinite = true →
        (FloatStyle.document.numeral x).toSingle? = some x := by
    rw [← forall₂_and]
    refine forall₂_congr fun x _ => Single.isCarried_iff.trans ?_
    tauto
  rw [exportText, Document.ofText?_text, Document.ofJson?_toJson_iff, hcarried, isFinite_singles_iff,
    and_assoc]

/-- A script with one table, which holds a one and a NaN. -/
def gauge : Script :=
  Script.new.addTable ⟨7, some "speeds", .float, 2, 0, .floats [⟨0x3f800000⟩, ⟨0x7fc00000⟩]⟩

/-- The text of the script with a NaN in a table is refused, while its document becomes the script. -/
theorem gauge_refused : (Document.ofScript gauge).toScript = .ok gauge ∧
    ∀ indented, Document.ofText? (gauge.exportText indented) ≠ some (Document.ofScript gauge) ∧
      importText (gauge.exportText indented) = .error .notADocument := by
  have hfinite : ¬ gauge.HasFiniteTables := by
    intro h
    exact absurd (h _ List.mem_cons_self ⟨0x7fc00000⟩ (by decide)) (by decide)
  refine ⟨?_, fun indented => ⟨?_, importText_exportText_of_not_finite hfinite indented⟩⟩
  · rfl
  · rw [exportText, Document.ofText?_text, Ne, Document.ofJson?_toJson_iff]
    intro h
    exact hfinite (isFinite_singles_iff.mp fun x hx => (Single.isCarried_iff.mp (h.1 x hx)).1)

end Script

end ScriptContainer
