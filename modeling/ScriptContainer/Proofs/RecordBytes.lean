import ScriptContainer.Record.Writing
import ScriptContainer.Proofs.EmittingRegion

/-!
# Records as bytes

The bytes of a record do not depend on where it is written, as long as it begins at a word, and
their number is a multiple of four. Writing records fails only for a variable whose value is not
of its type.
-/

namespace ScriptContainer

def bytesOfWords (ws : List UInt32) : List UInt8 := ws.flatMap bytesOfWord

/-- The bytes of a text after its count of words, the zero bytes at its end included. -/
def bytesOfText (text : String) : List UInt8 :=
  bytesOfWord (UInt32.ofNat (textWords text)) ++
    (text.toUTF8.toList ++ List.replicate (textWords text * 4 - text.utf8ByteSize) 0)

/-- The bytes of the name of a record that has one. -/
def bytesOfName : Option String → List UInt8
  | some name => bytesOfText name
  | none => []

/-- The word that says whether there is a name. -/
def nameWord (name : Option String) : UInt32 := if name.isSome then 0xffffffff else 0

/-- The bytes of records after their number. -/
def bytesOfList {α : Type} (bytes : α → List UInt8) (xs : List α) : List UInt8 :=
  bytesOfWord (UInt32.ofNat xs.length) ++ xs.flatMap bytes

/-- The bytes of a value that follow its record. -/
def Value.text : Value → List UInt8
  | .string text => bytesOfText text
  | _ => []

def Variable.bytes (v : Variable) : List UInt8 :=
  bytesOfWords [nameWord v.name, v.id, Writer.typeWord v, Writer.valueWord v.value] ++
    (bytesOfName v.name ++ v.value.text)

def Import.bytes (i : Import) : List UInt8 :=
  bytesOfWords [nameWord i.name, i.unknown.a, i.unknown.b, i.unknown.c, i.id, i.unknown.d,
    i.unknown.e] ++ bytesOfName i.name

def Label.bytes (l : Label) : List UInt8 :=
  bytesOfWords [nameWord l.name, l.id, l.address] ++ bytesOfName l.name

/-- The bytes of the declaration of a table. -/
def Table.declaration (t : Table) : List UInt8 :=
  bytesOfWords [nameWord t.name, t.id, t.type.code, t.length, t.start / 4] ++ bytesOfName t.name

/-- The words before the name of a function. -/
def Function.fixedWords (f : Function) : List UInt32 :=
  [nameWord f.name, f.id, if f.isPublic then 1 else 0, f.unknown.a, f.codeStart / 4, f.codeEnd / 4,
    f.unknown.b, f.unknown.c]

/-- The bytes of the declaration of a function with the records that it owns. -/
def Function.declaration (f : Function) : List UInt8 :=
  bytesOfWords f.fixedWords ++
    (bytesOfName f.name ++ (bytesOfList Variable.bytes f.vars.records ++
      (bytesOfList Table.declaration f.tables.records ++
        bytesOfList Label.bytes f.labels.records)))

section Lengths

lemma length_bytesOfWord (word : UInt32) : (bytesOfWord word).length = 4 := rfl

lemma length_bytesOfWords (ws : List UInt32) : (bytesOfWords ws).length = 4 * ws.length :=
  length_flatMap_bytesOfWord ws

lemma four_dvd_bytesOfWords (ws : List UInt32) : 4 ∣ (bytesOfWords ws).length :=
  ⟨_, length_bytesOfWords ws⟩

lemma toList_loop (b : ByteArray) (i : Nat) (r : List UInt8) :
    ByteArray.toList.loop b i r = r.reverse ++ b.data.toList.drop i := by
  have hsize : b.data.toList.length = b.size := Array.length_toList
  induction h : b.size - i generalizing i r with
  | zero =>
    rw [ByteArray.toList.loop, if_neg (by omega), List.drop_eq_nil_of_le (by omega),
      List.append_nil]
  | succ n ih =>
    have hi : i < b.data.toList.length := by omega
    have hget : b.get! i = b.data.toList[i] := by
      change b.data[i]! = _
      rw [getElem!_pos b.data i (by rwa [← Array.length_toList]), Array.getElem_toList]
    rw [ByteArray.toList.loop, if_pos (by omega), ih (i + 1) _ (by omega),
      List.drop_eq_getElem_cons hi, hget, List.reverse_cons, List.append_assoc]
    rfl

lemma toList_eq_data (b : ByteArray) : b.toList = b.data.toList := toList_loop b 0 []

lemma length_toUTF8 (text : String) : text.toUTF8.toList.length = text.utf8ByteSize := by
  rw [toList_eq_data]
  exact Array.length_toList

lemma length_bytesOfText (text : String) : (bytesOfText text).length = 4 + textWords text * 4 := by
  rw [bytesOfText, List.length_append, List.length_append, length_toUTF8, List.length_replicate,
    length_bytesOfWord]
  unfold textWords
  omega

lemma four_dvd_bytesOfText (text : String) : 4 ∣ (bytesOfText text).length := by
  rw [length_bytesOfText]
  omega

lemma four_dvd_bytesOfName (name : Option String) : 4 ∣ (bytesOfName name).length := by
  cases name with
  | none => exact Nat.dvd_zero 4
  | some name => exact four_dvd_bytesOfText name

lemma four_dvd_append {xs ys : List UInt8} (hx : 4 ∣ xs.length) (hy : 4 ∣ ys.length) :
    4 ∣ (xs ++ ys).length := by
  rw [List.length_append]
  exact Nat.dvd_add hx hy

lemma four_dvd_flatten {parts : List (List UInt8)} (h : ∀ part ∈ parts, 4 ∣ part.length) :
    4 ∣ parts.flatten.length := by
  induction parts with
  | nil => exact Nat.dvd_zero 4
  | cons part parts ih =>
    rw [List.forall_mem_cons] at h
    exact four_dvd_append h.1 (ih h.2)

lemma four_dvd_flatMap {α : Type} {bytes : α → List UInt8} (h : ∀ x, 4 ∣ (bytes x).length)
    (xs : List α) : 4 ∣ (xs.flatMap bytes).length := by
  rw [List.flatMap_def]
  exact four_dvd_flatten (List.forall_mem_map.mpr fun x _ => h x)

lemma four_dvd_bytesOfList {α : Type} {bytes : α → List UInt8} (h : ∀ x, 4 ∣ (bytes x).length)
    (xs : List α) : 4 ∣ (bytesOfList bytes xs).length :=
  four_dvd_append ⟨1, rfl⟩ (four_dvd_flatMap h xs)

lemma length_bytesOfList_map {α : Type} {bytes : α → List UInt8} {g : α → α}
    (h : ∀ x, (bytes (g x)).length = (bytes x).length) (xs : List α) :
    (bytesOfList bytes (xs.map g)).length = (bytesOfList bytes xs).length := by
  have hflat : ((xs.map g).flatMap bytes).length = (xs.flatMap bytes).length := by
    rw [List.flatMap_map, List.length_flatMap, List.length_flatMap]
    simp only [h]
  rw [bytesOfList, bytesOfList, List.length_append, List.length_append, hflat]
  rfl

lemma Variable.four_dvd_bytes (v : Variable) : 4 ∣ v.bytes.length := by
  refine four_dvd_append (four_dvd_bytesOfWords _) (four_dvd_append (four_dvd_bytesOfName _) ?_)
  cases v.value with
  | string text => exact four_dvd_bytesOfText text
  | _ => exact Nat.dvd_zero 4

lemma Import.four_dvd_bytes (i : Import) : 4 ∣ i.bytes.length :=
  four_dvd_append (four_dvd_bytesOfWords _) (four_dvd_bytesOfName _)

lemma Label.four_dvd_bytes (l : Label) : 4 ∣ l.bytes.length :=
  four_dvd_append (four_dvd_bytesOfWords _) (four_dvd_bytesOfName _)

lemma Table.four_dvd_declaration (t : Table) : 4 ∣ t.declaration.length :=
  four_dvd_append (four_dvd_bytesOfWords _) (four_dvd_bytesOfName _)

lemma Function.four_dvd_declaration (f : Function) : 4 ∣ f.declaration.length := by
  refine four_dvd_append (four_dvd_bytesOfWords _) (four_dvd_append (four_dvd_bytesOfName _) ?_)
  refine four_dvd_append (four_dvd_bytesOfList Variable.four_dvd_bytes _) ?_
  exact four_dvd_append (four_dvd_bytesOfList Table.four_dvd_declaration _)
    (four_dvd_bytesOfList Label.four_dvd_bytes _)

end Lengths

namespace Writer

variable {w : Writer}

lemma words_eq (w : Writer) (ws : List UInt32) : w.words ws = w.append (bytesOfWords ws) :=
  w.words_eq_append ws

lemma four_dvd_position_append (hw : 4 ∣ w.position) {bytes : List UInt8} (hb : 4 ∣ bytes.length) :
    4 ∣ (w.append bytes).position := by
  rw [position_append]
  exact Nat.dvd_add hw hb

lemma text_eq (hw : 4 ∣ w.position) (text : String) : w.text text = w.append (bytesOfText text) := by
  have hbyte (w : Writer) : w.byte 0 = w.append [0] := by
    apply eq_of_toList
    simp [byte, append]
  have hsize := length_toUTF8 text
  have hfill : 1 + (4 - (w.position + 4 + text.utf8ByteSize + 1) % 4) % 4 =
      textWords text * 4 - text.utf8ByteSize := by
    unfold textWords
    omega
  have hzeros : List.replicate (textWords text * 4 - text.utf8ByteSize) 0 = (0 : UInt8) ::
      List.replicate ((4 - (w.position + 4 + text.utf8ByteSize + 1) % 4) % 4) 0 := by
    rw [← hfill, Nat.add_comm, List.replicate_succ]
  have hposition : (((w.word (UInt32.ofNat (textWords text))).append text.toUTF8.toList).byte
      0).position = w.position + 4 + text.utf8ByteSize + 1 := by
    rw [hbyte, word, position_append, position_append, position_append, hsize]
    rfl
  rw [Writer.text, align, hposition, hbyte, word, append_append, append_append, append_append,
    bytesOfText, hzeros]
  rfl

lemma nameFlag_eq (w : Writer) (name : Option String) :
    w.nameFlag name = w.append (bytesOfWord (nameWord name)) := rfl

lemma flag_words (w : Writer) (name : Option String) (ws : List UInt32) :
    (w.nameFlag name).words ws = w.append (bytesOfWords (nameWord name :: ws)) := by
  rw [words_eq, nameFlag_eq, append_append]
  rfl

lemma name_eq (hw : 4 ∣ w.position) (name : Option String) :
    w.name name = w.append (bytesOfName name) := by
  cases name with
  | none => exact w.append_nil.symm
  | some name => exact text_eq hw name

lemma record_eq (hw : 4 ∣ w.position) (name : Option String) (ws : List UInt32) :
    ((w.nameFlag name).words ws).name name =
      w.append (bytesOfWords (nameWord name :: ws) ++ bytesOfName name) := by
  rw [flag_words, name_eq (four_dvd_position_append hw (four_dvd_bytesOfWords _)), append_append]

lemma imported_eq (hw : 4 ∣ w.position) (i : Import) : w.imported i = w.append i.bytes :=
  record_eq hw _ _

lemma label_eq (hw : 4 ∣ w.position) (l : Label) : w.label l = w.append l.bytes := record_eq hw _ _

lemma table_eq (hw : 4 ∣ w.position) (t : Table) : w.table t = w.append t.declaration :=
  record_eq hw _ _

section Lists

variable {α : Type} {bytes : α → List UInt8}

lemma foldl_eq {write : Writer → α → Writer}
    (h : ∀ (w : Writer) (x : α), 4 ∣ w.position → write w x = w.append (bytes x))
    (hb : ∀ x, 4 ∣ (bytes x).length) (hw : 4 ∣ w.position) (xs : List α) :
    xs.foldl write w = w.append (xs.flatMap bytes) := by
  induction xs generalizing w with
  | nil => exact w.append_nil.symm
  | cons x xs ih =>
    rw [List.foldl_cons, h w x hw, ih (four_dvd_position_append hw (hb x)), append_append,
      List.flatMap_cons]

lemma list_eq {write : Writer → α → Writer}
    (h : ∀ (w : Writer) (x : α), 4 ∣ w.position → write w x = w.append (bytes x))
    (hb : ∀ x, 4 ∣ (bytes x).length) (hw : 4 ∣ w.position) (xs : List α) :
    xs.foldl write (w.word (UInt32.ofNat xs.length)) = w.append (bytesOfList bytes xs) := by
  have hcount : 4 ∣ (w.word (UInt32.ofNat xs.length)).position :=
    four_dvd_position_append hw ⟨1, rfl⟩
  rw [foldl_eq h hb hcount xs, word, append_append, bytesOfList]

lemma foldlM_yields {write : Writer → α → Except Error Writer} {good : α → Prop}
    {bad : Error → Prop}
    (h : ∀ (w : Writer) (x : α), 4 ∣ w.position →
      YieldsIf (write w x) (w.append (bytes x)) (good x) bad)
    (hb : ∀ x, 4 ∣ (bytes x).length) (hw : 4 ∣ w.position) (xs : List α) :
    YieldsIf (xs.foldlM write w) (w.append (xs.flatMap bytes)) (∀ x ∈ xs, good x) bad := by
  induction xs generalizing w with
  | nil => exact ⟨w.append_nil.symm, fun _ h => by cases h⟩
  | cons x xs ih =>
    rw [List.foldlM_cons]
    have hrest := ih (four_dvd_position_append hw (hb x))
    refine ((h w x hw).andThen fun _ => hrest).congr ?_ List.forall_mem_cons.symm
    rw [append_append, List.flatMap_cons]

lemma list_yields {write : Writer → α → Except Error Writer} {good : α → Prop}
    {bad : Error → Prop}
    (h : ∀ (w : Writer) (x : α), 4 ∣ w.position →
      YieldsIf (write w x) (w.append (bytes x)) (good x) bad)
    (hb : ∀ x, 4 ∣ (bytes x).length) (hw : 4 ∣ w.position) (xs : List α) :
    YieldsIf (xs.foldlM write (w.word (UInt32.ofNat xs.length))) (w.append (bytesOfList bytes xs))
      (∀ x ∈ xs, good x) bad := by
  have hcount : 4 ∣ (w.word (UInt32.ofNat xs.length)).position :=
    four_dvd_position_append hw ⟨1, rfl⟩
  exact (foldlM_yields h hb hcount xs).congr (append_append _ _ _) Iff.rfl

end Lists

lemma imports_eq (hw : 4 ∣ w.position) (is : List Import) :
    w.imports is = w.append (bytesOfList Import.bytes is) :=
  list_eq (fun _ i hw => imported_eq hw i) Import.four_dvd_bytes hw is

lemma labels_eq (hw : 4 ∣ w.position) (ls : List Label) :
    w.labels ls = w.append (bytesOfList Label.bytes ls) :=
  list_eq (fun _ l hw => label_eq hw l) Label.four_dvd_bytes hw ls

lemma tables_eq (hw : 4 ∣ w.position) (ts : List Table) :
    w.tables ts = w.append (bytesOfList Table.declaration ts) :=
  list_eq (fun _ t hw => table_eq hw t) Table.four_dvd_declaration hw ts

lemma var_yields (hw : 4 ∣ w.position) (v : Variable) :
    YieldsIf (w.var v) (w.append v.bytes) (v.value.fits v.type) Error.IsInput := by
  unfold var
  by_cases hfits : v.value.fits v.type
  case neg =>
    rw [if_neg hfits]
    exact ⟨.inr ⟨_, rfl⟩, hfits⟩
  rw [if_pos hfits, record_eq hw]
  cases hvalue : v.value with
  | string text =>
    refine ⟨?_, by rwa [← hvalue]⟩
    rw [text_eq, append_append, Variable.bytes, hvalue, Value.text, List.append_assoc]
    exact four_dvd_position_append hw
      (four_dvd_append (four_dvd_bytesOfWords _) (four_dvd_bytesOfName _))
  | _ =>
    refine ⟨?_, by rwa [← hvalue]⟩
    simp only [Variable.bytes, hvalue, Value.text, List.append_nil]

lemma vars_yields (hw : 4 ∣ w.position) (vs : List Variable) :
    YieldsIf (w.vars vs) (w.append (bytesOfList Variable.bytes vs))
      (∀ v ∈ vs, v.value.fits v.type) Error.IsInput :=
  list_yields (fun _ v hw => var_yields hw v) Variable.four_dvd_bytes hw vs

lemma function_yields (hw : 4 ∣ w.position) (f : Function) :
    YieldsIf (w.function f) (w.append f.declaration) (∀ v ∈ f.vars.records, v.value.fits v.type)
      Error.IsInput := by
  unfold function
  rw [record_eq hw]
  have hhead : 4 ∣ (w.append (bytesOfWords f.fixedWords ++ bytesOfName f.name)).position :=
    four_dvd_position_append hw
      (four_dvd_append (four_dvd_bytesOfWords f.fixedWords) (four_dvd_bytesOfName f.name))
  have hvars := four_dvd_position_append hhead
    (four_dvd_bytesOfList Variable.four_dvd_bytes f.vars.records)
  refine (vars_yields hhead f.vars.records).andReturn fun _ => ?_
  rw [tables_eq hvars, labels_eq (four_dvd_position_append hvars
    (four_dvd_bytesOfList Table.four_dvd_declaration _))]
  simp only [append_append, Function.declaration, List.append_assoc]
  rfl

lemma functions_yields (hw : 4 ∣ w.position) (fs : List Function) :
    YieldsIf (w.functions fs) (w.append (bytesOfList Function.declaration fs))
      (∀ f ∈ fs, ∀ v ∈ f.vars.records, v.value.fits v.type) Error.IsInput :=
  list_yields (fun _ f hw => function_yields hw f) Function.four_dvd_declaration hw fs

end Writer

end ScriptContainer
