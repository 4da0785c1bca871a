import Mathlib.Data.List.TakeWhile
import ScriptContainer.Proofs.Imported
import ScriptContainer.Proofs.Soundness

/-!
# Scripts without code

The sections before the code region, and the records of a document, make up a script without code
in which every value is of the declared type and no table refers to a variable.
-/

namespace ScriptContainer

/-- The values are of the type of the table, and no variables are among them. -/
structure Table.IsPlain (t : Table) : Prop where
  type : t.values.type = t.type
  refs : ∀ refs, t.values = .vars refs → refs = []

/-- The function has no code, and what it owns refers to nothing. -/
structure Function.IsBlank (f : Function) : Prop where
  code : f.code = []
  vars : ∀ v ∈ f.vars.records, v.value.fits v.type = true
  tables : ∀ t ∈ f.tables.records, t.IsPlain

namespace Script

variable {s : Script}

/-- The script has no code, and nothing in it refers to a record. -/
structure IsBlank (s : Script) : Prop where
  functions : ∀ f ∈ s.functions.records, f.IsBlank
  vars : ∀ v ∈ s.vars.records, v.value.fits v.type = true
  tables : ∀ t ∈ s.tables.records, t.IsPlain

lemma isBlank_new : new.IsBlank where
  functions := List.forall_mem_nil _
  vars := by
    rw [records_vars_new]
    intro v hv
    obtain ⟨n, -, rfl⟩ := List.mem_map.mp hv
    rfl
  tables := List.forall_mem_nil _

namespace IsBlank

variable (h : s.IsBlank)
include h

lemma addFunctions {fs : List Function} (hfs : ∀ f ∈ fs, f.IsBlank) :
    (fs.foldl Script.addFunction s).IsBlank := by
  rw [foldl_addFunction]
  exact { h with functions := Registry.forall_foldl_insert h.functions hfs }

lemma addVariables {vs : List Variable} (hvs : ∀ v ∈ vs, v.value.fits v.type = true) :
    (vs.foldl Script.addVariable s).IsBlank := by
  rw [foldl_addVariable]
  exact { h with vars := Registry.forall_foldl_insert h.vars hvs }

lemma addTables {ts : List Table} (hts : ∀ t ∈ ts, t.IsPlain) :
    (ts.foldl Script.addTable s).IsBlank := by
  rw [foldl_addTable]
  exact { h with tables := Registry.forall_foldl_insert h.tables hts }

lemma addImports (is : List Import) : (is.foldl Script.addImport s).IsBlank := by
  rw [foldl_addImport]
  exact { h with }

lemma isPlain_of_table? {ref : TableRef} {t : Table} (ht : s.table? ref = some t) : t.IsPlain := by
  obtain ⟨owner, id⟩ := ref
  cases owner with
  | script => exact h.tables t (Registry.mem_of_get? ht)
  | function f =>
    obtain ⟨g, hg, ht⟩ := Option.bind_eq_some_iff.mp ht
    exact (h.functions g (Registry.mem_of_get? hg)).tables t (Registry.mem_of_get? ht)

lemma restsOn : s.RestsOn s where
  includes _ hs := hs
  types := rfl
  code f hf i hi := by
    rw [(h.functions f hf).code] at hi
    exact absurd hi List.not_mem_nil
  tables entry hentry := by
    have hplain := h.isPlain_of_table? (mem_allTables.mp hentry)
    refine ⟨hplain.type, fun refs hvalues ref href => ?_⟩
    rw [hplain.refs refs hvalues] at href
    exact absurd href List.not_mem_nil
  vars := h.vars
  owned f hf := (h.functions f hf).vars

end IsBlank

end Script

namespace Read

variable {α : Type}

lemma times_answers {read : Read α} {good : α → Prop} (h : Answers read good) (count : Nat) :
    Answers (times read count) fun xs => ∀ x ∈ xs, good x := by
  induction count with
  | zero => exact .pure (List.forall_mem_nil _)
  | succ count ih =>
    apply h.bind
    intro x hx
    apply ih.bind
    intro xs hxs
    exact .pure (List.forall_mem_cons.mpr ⟨hx, hxs⟩)

lemma counted_answers {read : Read α} {good : α → Prop} (h : Answers read good) :
    Answers (counted read) fun xs => ∀ x ∈ xs, good x :=
  .after fun count => times_answers h count.toNat

lemma ofList_answers [Keyed α] {read : Read (List α)} {good : α → Prop}
    (h : Answers read fun xs => ∀ x ∈ xs, good x) :
    Answers (do return Registry.ofList (← read)) fun r => ∀ x ∈ r.records, good x := by
  apply h.bind
  intro xs hxs
  exact .pure (Registry.forall_foldl_insert (List.forall_mem_nil _) hxs)

lemma nulFree_of_fromUTF8? {bytes : List UInt8} {text : String}
    (h : String.fromUTF8? (bytes.takeWhile (· != 0)).toByteArray = some text) : NulFree text := by
  unfold String.fromUTF8? at h
  split at h
  case isTrue hvalid =>
    obtain rfl := Option.some.inj h
    have hbytes : (String.fromUTF8 (bytes.takeWhile (· != 0)).toByteArray hvalid).toUTF8.toList =
        bytes.takeWhile (· != 0) := by
      rw [toList_eq_data]
      change (bytes.takeWhile (· != 0)).toByteArray.data.toList = _
      rw [List.data_toByteArray]
    unfold NulFree
    rw [hbytes]
    exact fun hmem => absurd (List.mem_takeWhile_imp hmem) (by decide)
  case isFalse => cases h

lemma text_answers : Answers text NulFree := by
  refine .after fun start => .after fun words => .after fun raw => ?_
  cases htext : String.fromUTF8? (raw.takeWhile (· != 0)).toByteArray with
  | some text => exact .pure (nulFree_of_fromUTF8? htext)
  | none => exact .throw _

lemma name_answers (named : Bool) : Answers (name named) fun name => ∀ text ∈ name, NulFree text := by
  unfold name
  split
  · apply text_answers.bind
    rintro text htext
    exact .pure fun other hother => Option.mem_some_iff.mp hother ▸ htext
  · exact .pure fun other hother => by cases hother

lemma packed_answers : Answers packed fun typed => (ValueType.ofCode typed.1).IsStored := by
  refine .after fun w => .pure ⟨?_, ?_⟩
  · rw [ValueType.code_ofCode, UInt32.toNat_and]
    exact (Nat.and_le_right).trans_lt (by decide)
  · rw [ValueType.code_ofCode]

lemma var_answers (scope : Scope) : Answers (var scope) fun v => v.scope = scope ∧ v.IsStored := by
  refine .after fun named => .after fun id => packed_answers.bind fun typed htype => ?_
  refine .after fun offset => .after fun raw => (name_answers named).bind fun name hname => ?_
  dsimp only
  generalize ValueType.ofCode typed.1 = type at htype ⊢
  cases type with
  | int | float | raw => exact .pure ⟨rfl, hname, htype, rfl, fun _ he => by cases he⟩
  | string =>
    dsimp only
    split
    · have htext : Answers (Value.string <$> text) fun value => ∃ text, value = .string text ∧
          NulFree text := .map text_answers fun text htext => ⟨text, rfl, htext⟩
      refine htext.bind fun value hvalue => ?_
      obtain ⟨text, rfl, htext⟩ := hvalue
      exact .pure ⟨rfl, hname, htype, rfl, fun _ he => Value.string.inj he ▸ htext⟩
    · exact fun _ => trivial

lemma table_answers : Answers table fun t => t.IsPlain ∧ ∀ name ∈ t.name, NulFree name := by
  refine .after fun named => .after fun id => .after fun offset => .after fun code => ?_
  cases ElementType.ofCode? code with
  | none => exact .throw _
  | some type =>
    refine .after fun length => .after fun start => (name_answers named).bind fun name hname =>
      .pure ⟨?_, hname⟩
    cases type with
    | «variable» => exact ⟨rfl, fun refs hrefs => (TableValues.vars.inj hrefs).symm⟩
    | int | float | byte => exact ⟨rfl, fun refs hrefs => by cases hrefs⟩

lemma imported_answers : Answers imported fun i => ∀ name ∈ i.name, NulFree name := by
  refine .after fun named => .after fun a => .after fun b => .after fun c => .after fun id => ?_
  exact .after fun d => .after fun e => (name_answers named).bind fun name hname => .pure hname

lemma label_answers : Answers label fun l => ∀ name ∈ l.name, NulFree name := by
  refine .after fun named => .after fun id => .after fun address => ?_
  exact (name_answers named).bind fun name hname => .pure hname

lemma function_answers : Answers function fun f => f.IsBlank ∧ f.IsStorable := by
  refine .after fun named => .after fun id => .after fun isPublic => .after fun a => ?_
  refine .after fun start => .after fun stop => .after fun b => .after fun c => ?_
  apply (name_answers named).bind
  intro name hname
  apply (ofList_answers (counted_answers (var_answers .owned))).bind
  intro vars hvars
  apply (ofList_answers (counted_answers table_answers)).bind
  intro tables htables
  apply (counted_answers label_answers).bind
  intro labels hlabels
  refine .pure ⟨⟨rfl, fun v hv => (hvars v hv).2.fits, fun t ht => (htables t ht).1⟩, rfl, hname, hvars,
    fun t ht => (htables t ht).2, ?_⟩
  exact Registry.forall_foldl_insert (List.forall_mem_nil _) hlabels

lemma variableSection_answers {s : Script} (h : s.IsBlank) (hs : s.HoldsStorable) {scope : Scope}
    (hscope : scope = .static ∨ scope = .constant ∨ scope = .global) :
    Answers (variableSection s scope) fun t => t.IsBlank ∧ t.HoldsStorable := by
  apply (ofList_answers (counted_answers (var_answers scope))).bind
  intro vars hvars
  refine .pure ⟨h.addVariables fun v hv => (hvars v hv).2.fits, hs.addVariables fun v hv => ?_⟩
  rw [(hvars v hv).1]
  exact ⟨hscope, (hvars v hv).2⟩

theorem declarations_answers : Answers declarations fun s => s.IsBlank ∧ s.HoldsStorable := by
  apply Answers.after
  intro sections
  refine .after fun _ => .after fun front => .after fun _ => ?_
  apply (counted_answers function_answers).bind
  intro functions hfunctions
  have hblank := Script.isBlank_new.addFunctions fun f hf => (hfunctions f hf).1
  have hholds := Script.HoldsStorable.ofNew.addFunctions fun f hf => (hfunctions f hf).2
  refine .after fun _ => ?_
  apply (variableSection_answers hblank hholds (.inl rfl)).bind
  rintro withStatics ⟨hstatics, hholds⟩
  refine .after fun _ => ?_
  apply (ofList_answers (counted_answers table_answers)).bind
  intro tables htables
  refine .after fun after => .after fun _ => ?_
  have hwithTables : Script.IsBlank { withStatics with tables, padding := ⟨front, after, []⟩ } :=
    { hstatics with tables := fun t ht => (htables t ht).1 }
  have hholds : Script.HoldsStorable { withStatics with tables, padding := ⟨front, after, []⟩ } :=
    { hholds with tables := fun t ht => (htables t ht).2 }
  apply (variableSection_answers hwithTables hholds (.inr (.inl rfl))).bind
  rintro withConstants ⟨hconstants, hholds⟩
  refine .after fun _ => ?_
  apply (counted_answers imported_answers).bind
  intro imports himports
  refine .after fun _ => ?_
  apply (variableSection_answers (hconstants.addImports imports) (hholds.addImports himports)
    (.inr (.inr rfl))).bind
  exact fun s hs => .after fun _ => .pure hs

end Read

namespace Document

lemma Variable.fits_toRecord {v : Variable} {r : ScriptContainer.Variable} (hr : v.toRecord = .ok r) :
    r.value.fits r.type = true := by
  unfold toRecord at hr
  split at hr
  case h_5 =>
    split at hr
    · obtain rfl := Except.ok.inj hr
      rfl
    · cases hr
  all_goals
    obtain rfl := Except.ok.inj hr
    rfl

lemma Table.isPlain_toRecord (t : Table) : t.toRecord.IsPlain := by
  refine ⟨rfl, fun refs hrefs => ?_⟩
  unfold toRecord plainValues at hrefs
  cases hvalues : t.values with
  | vars texts =>
    rw [hvalues] at hrefs
    exact (TableValues.vars.inj hrefs).symm
  | ints | floats | bytes =>
    rw [hvalues] at hrefs
    cases hrefs

lemma Function.isBlank_toRecord {f : Function} {r : ScriptContainer.Function} (hr : f.toRecord = .ok r) :
    r.IsBlank := by
  unfold toRecord at hr
  obtain ⟨_, -, hr⟩ := bind_eq_ok_iff.mp hr
  obtain ⟨_, -, hr⟩ := bind_eq_ok_iff.mp hr
  obtain ⟨_, -, hr⟩ := bind_eq_ok_iff.mp hr
  obtain ⟨vars, hvars, hr⟩ := bind_eq_ok_iff.mp hr
  obtain rfl := pure_eq_ok_iff.mp hr
  refine List.foldlRecOn _ _ (List.foldlRecOn _ _ (List.foldlRecOn _ _ ?_ ?_) ?_) ?_
  · exact ⟨rfl, List.forall_mem_nil _, List.forall_mem_nil _⟩
  · intro g hg v hv
    obtain ⟨doc, -, hv⟩ := exists_of_mem_mapM hvars hv
    have hfits := Variable.fits_toRecord hv
    exact { hg with vars := Registry.forall_insert hg.vars hfits }
  · intro g hg t ht
    obtain ⟨doc, -, rfl⟩ := List.mem_map.mp ht
    exact { hg with tables := Registry.forall_insert hg.tables doc.isPlain_toRecord }
  · intro g hg l hl
    exact { hg with }

/-- The script before the references of the document are looked up. -/
theorem isBlank_records {d : Document} {s : Script} (hs : d.records = .ok s) : s.IsBlank := by
  unfold records at hs
  obtain ⟨_, -, hs⟩ := bind_eq_ok_iff.mp hs
  obtain ⟨_, -, hs⟩ := bind_eq_ok_iff.mp hs
  obtain ⟨_, -, hs⟩ := bind_eq_ok_iff.mp hs
  obtain ⟨_, -, hs⟩ := bind_eq_ok_iff.mp hs
  obtain ⟨vars, hvars, hs⟩ := bind_eq_ok_iff.mp hs
  obtain ⟨functions, hfunctions, hs⟩ := bind_eq_ok_iff.mp hs
  obtain rfl := pure_eq_ok_iff.mp hs
  have hvars : ∀ v ∈ vars, v.value.fits v.type = true := by
    intro v hv
    obtain ⟨doc, -, hv⟩ := exists_of_mem_mapM hvars hv
    exact Variable.fits_toRecord hv
  have htables : ∀ t ∈ d.tables.map Table.toRecord, t.IsPlain := by
    intro t ht
    obtain ⟨doc, -, rfl⟩ := List.mem_map.mp ht
    exact doc.isPlain_toRecord
  have hfunctions : ∀ f ∈ functions, f.IsBlank := by
    intro f hf
    obtain ⟨doc, -, hf⟩ := exists_of_mem_mapM hfunctions hf
    exact Function.isBlank_toRecord hf
  have hblank := Script.isBlank_new.addImports d.imports |>.addVariables hvars |>.addTables htables
    |>.addFunctions hfunctions
  exact { hblank with }

end Document

end ScriptContainer
