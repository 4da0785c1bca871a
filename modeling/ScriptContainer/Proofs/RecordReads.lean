import Mathlib.Tactic.IntervalCases
import ScriptContainer.Record.Reading
import ScriptContainer.Proofs.Reads

/-!
# Records read back

Records that a container can hold are read as they were written. What it cannot hold is a text with
a zero byte, and a type whose code is not its own or does not fit beside the flags.
-/

namespace ScriptContainer

/-- No zero byte, which would end the text. -/
def NulFree (text : String) : Prop := 0 ∉ text.toUTF8.toList

instance (text : String) : Decidable (NulFree text) := inferInstanceAs (Decidable (¬ _ ∈ _))

/-- The type is read back from its code. -/
def ValueType.IsStored (type : ValueType) : Prop :=
  type.code.toNat < 2 ^ 24 ∧ ValueType.ofCode type.code = type

instance (type : ValueType) : Decidable type.IsStored := inferInstanceAs (Decidable (_ ∧ _))

/-- A container can hold the variable. -/
structure Variable.IsStored (v : Variable) : Prop where
  name : ∀ name ∈ v.name, NulFree name
  type : v.type.IsStored
  fits : v.value.fits v.type
  text : ∀ text, v.value = .string text → NulFree text

/-- A container can hold the declaration of the table. -/
structure Table.IsStored (t : Table) (reach : Nat) : Prop where
  name : ∀ name ∈ t.name, NulFree name
  start : 4 ∣ t.start.toNat
  inside : t.start.toNat ≤ reach

/-- A container can hold the declaration of the function and the records that it owns. -/
structure Function.IsStored (f : Function) (reach : Nat) : Prop where
  name : ∀ name ∈ f.name, NulFree name
  start : 4 ∣ f.codeStart.toNat
  stop : 4 ∣ f.codeEnd.toNat
  inside : f.codeStart.toNat ≤ reach ∧ f.codeEnd.toNat ≤ reach
  vars : ∀ v ∈ f.vars.records, v.scope = .owned ∧ v.IsStored
  tables : ∀ t ∈ f.tables.records, t.IsStored reach
  labels : ∀ l ∈ f.labels.records, ∀ name ∈ l.name, NulFree name

/-- The declaration of a table, which holds no values. -/
def Table.emptied (t : Table) : Table := { t with values := .empty t.type }

lemma Table.id_emptied (t : Table) : Keyed.id t.emptied = Keyed.id t := rfl

/-- The declaration of a function: what is known of it before its code is read. -/
def Function.bare (f : Function) : Function :=
  { f with isInline := false, isDeclared := true, code := [],
           tables := f.tables.map Table.emptied Table.id_emptied }

lemma Function.id_bare (f : Function) : Keyed.id f.bare = Keyed.id f := rfl

/-- The number of words of a name, which is written before it. -/
def nameCounts (name : Option String) : List Nat := name.toList.map textWords

/-- The number of words of a value that follows its record. -/
def Value.counts : Value → List Nat
  | .string text => [textWords text]
  | _ => []

/-- The numbers that are written before the texts of a variable. -/
def Variable.counts (v : Variable) : List Nat := nameCounts v.name ++ v.value.counts

/-- The numbers that are written before the texts and lists of a function. -/
def Function.counts (f : Function) : List Nat :=
  nameCounts f.name ++ (f.vars.size :: f.vars.records.flatMap Variable.counts ++
    (f.tables.size :: f.tables.records.flatMap (nameCounts ∘ Table.name) ++
      (f.labels.size :: f.labels.records.flatMap (nameCounts ∘ Label.name))))

/-- Where a container of one of the sizes has room for as many words, their number fits a word. -/
def Counts (sizes : Nat → Prop) (count : Nat) : Prop :=
  ∀ size, sizes size → 4 * count ≤ size → count < UInt32.size

lemma Spans.counts (reach count : Nat) : Counts (Spans reach) count := by
  intro size hsize hroom
  have := hsize.2
  omega

namespace Reads

variable {α β : Type} {sizes : Nat → Prop}

lemma word_bind {w : UInt32} {next : UInt32 → Read β} {more : List UInt8} {y : β}
    (h : Reads sizes (next w) more y) : Reads sizes (Read.word >>= next) (bytesOfWord w ++ more) y :=
  (word w).bind h

lemma takeWhile_text (text : String) (h : NulFree text) (count : Nat) :
    (text.toUTF8.toList ++ List.replicate count 0).takeWhile (· != 0) = text.toUTF8.toList := by
  have hzeros : (List.replicate count (0 : UInt8)).takeWhile (· != 0) = [] := by
    cases count <;> simp [List.replicate_succ]
  rw [List.takeWhile_append_of_pos, hzeros, List.append_nil]
  intro b hb
  rw [bne_iff_ne]
  rintro rfl
  exact h hb

lemma fromUTF8?_toUTF8 (text : String) :
    String.fromUTF8? text.toUTF8.toList.toByteArray = some text := by
  have hbytes : text.toUTF8.toList.toByteArray = text.toByteArray := by
    apply ByteArray.ext
    rw [toList_eq_data, List.data_toByteArray, Array.toArray_toList]
    rfl
  have hvalid : text.toUTF8.toList.toByteArray.IsValidUTF8 := by
    rw [hbytes]
    exact text.isValidUTF8
  unfold String.fromUTF8?
  rw [dif_pos hvalid]
  refine congrArg some (String.toByteArray_inj.mp ?_)
  exact hbytes

lemma text {t : String} (h : NulFree t) (hfits : Counts sizes (textWords t)) :
    Reads sizes Read.text (bytesOfText t) t := by
  intro r rest hsize hshows
  have hlength := hshows.length_eq
  rw [List.length_append, length_bytesOfText] at hlength
  have hcount : (UInt32.ofNat (textWords t)).toNat = textWords t :=
    UInt32.toNat_ofNat_of_lt' (hfits _ hsize (by omega))
  let content := t.toUTF8.toList ++ List.replicate (textWords t * 4 - t.utf8ByteSize) 0
  have hcontent : content.length = textWords t * 4 := by
    have := length_bytesOfText t
    simp only [bytesOfText, List.length_append, length_bytesOfWord] at this
    simp only [content, List.length_append]
    omega
  have hread : Reads sizes Read.text (bytesOfText t) t := by
    have hbytes : Reads sizes (Read.bytes content.length) content content := bytes content
    rw [hcontent] at hbytes
    refine offset_bind fun here => word_bind ?_
    rw [hcount]
    refine hbytes.bind_pure ?_
    rw [takeWhile_text t h, fromUTF8?_toUTF8]
    exact pure t
  exact hread r rest hsize hshows

lemma nameFlag_bind {name : Option String} {next : Bool → Read β} {more : List UInt8} {y : β}
    (h : Reads sizes (next name.isSome) more y) :
    Reads sizes (Read.nameFlag >>= next) (bytesOfWord (nameWord name) ++ more) y := by
  refine bind ?_ h
  refine offset_bind fun here => (word _).bind_pure ?_
  cases name with
  | none => exact pure _
  | some name => exact pure _

lemma name {name : Option String} (h : ∀ text ∈ name, NulFree text)
    (hfits : ∀ count ∈ nameCounts name, Counts sizes count) :
    Reads sizes (Read.name name.isSome) (bytesOfName name) name := by
  cases name with
  | none => exact pure _
  | some name => exact (text (h name rfl) (hfits _ List.mem_cons_self)).bind_pure (pure _)

lemma wordOffset {x : UInt32} (hx : 4 ∣ x.toNat) (hinside : ∀ size, sizes size → x.toNat ≤ size) :
    Reads sizes Read.wordOffset (bytesOfWord (x / 4)) x := by
  intro r rest hsize hshows
  have hfour : (x / 4).toNat * 4 = x.toNat := by
    rw [UInt32.toNat_div]
    exact Nat.div_mul_cancel hx
  have hlt : x.toNat < UInt32.size := x.toNat_lt
  have hread : Reads sizes (do
      let count ← Read.word
      if count.toNat * 4 < UInt32.size ∧ count.toNat * 4 ≤ (← Read.length) then
        return UInt32.ofNat (count.toNat * 4)
      else Read.malformed r.offset (.offsetPastEnd count)) (bytesOfWord (x / 4)) x := by
    refine (word _).bind_pure fun r rest hsize _ => ?_
    have hinside : x.toNat ≤ r.bytes.size := hinside _ hsize
    change (if (x / 4).toNat * 4 < UInt32.size ∧ (x / 4).toNat * 4 ≤ r.bytes.size then
      (Pure.pure (UInt32.ofNat ((x / 4).toNat * 4)) : Read UInt32) else _) r = _
    rw [hfour, if_pos ⟨hlt, hinside⟩, UInt32.ofNat_toNat]
    rfl
  exact hread r rest hsize hshows

lemma counted_map {read : Read β} {bytes : α → List UInt8} {g : α → β} {xs : List α}
    (h : ∀ x ∈ xs, Reads sizes read (bytes x) (g x)) (hlong : ∀ x, 4 ≤ (bytes x).length)
    (hfits : Counts sizes xs.length) :
    Reads sizes (Read.counted read) (bytesOfList bytes xs) (xs.map g) := by
  intro r rest hsize hshows
  have hlength := hshows.length_eq
  have hall : 4 * xs.length ≤ (xs.flatMap bytes).length := by
    clear h hfits hshows hlength
    induction xs with
    | nil => simp
    | cons x xs ih =>
      have := hlong x
      rw [List.flatMap_cons, List.length_append, List.length_cons]
      omega
  rw [List.length_append, bytesOfList, List.length_append] at hlength
  have hcount : (UInt32.ofNat xs.length).toNat = xs.length :=
    UInt32.toNat_ofNat_of_lt' (hfits _ hsize (by omega))
  have hread : Reads sizes (Read.counted read) (bytesOfList bytes xs) (xs.map g) := by
    refine word_bind ?_
    rw [hcount]
    exact times_map h
  exact hread r rest hsize hshows

lemma counted {read : Read α} {bytes : α → List UInt8} {xs : List α}
    (h : ∀ x ∈ xs, Reads sizes read (bytes x) x) (hlong : ∀ x, 4 ≤ (bytes x).length)
    (hfits : Counts sizes xs.length) :
    Reads sizes (Read.counted read) (bytesOfList bytes xs) xs := by
  have := counted_map (g := fun x => x) h hlong hfits
  rwa [List.map_id'] at this

lemma getElem_code {code : UInt32} (h : code.toNat < 2 ^ 24) {i : Nat} (hi : 24 ≤ i)
    (hlt : i < 32) : code.toBitVec[i] = false := by
  rw [BitVec.getElem_eq_testBit_toNat, UInt32.toNat_toBitVec]
  exact Nat.testBit_lt_two_pow (lt_of_lt_of_le h (Nat.pow_le_pow_right (by decide) hi))

lemma packed {v : Variable} (h : v.type.IsStored) :
    Reads sizes Read.packed (bytesOfWord (Writer.typeWord v)) (v.type.code, v.flags) := by
  refine (word _).bind_pure ?_
  have hhigh (i : Nat) (hi : 24 ≤ i) (hlt : i < 32) : v.type.code.toBitVec[i] = false :=
    getElem_code h.1 hi hlt
  have hcode : Writer.typeWord v &&& 0xffffff = v.type.code := by
    apply UInt32.toBitVec_inj.mp
    apply BitVec.eq_of_getLsbD_eq
    intro i hi
    simp only [Writer.typeWord, UInt32.toBitVec_and, UInt32.toBitVec_or,
      UInt32.toBitVec_shiftLeft, UInt8.toBitVec_toUInt32, BitVec.getLsbD_and, BitVec.getLsbD_or]
    interval_cases i <;> simp [hhigh]
  have hflags : (Writer.typeWord v >>> 24).toUInt8 = v.flags := by
    apply UInt8.toBitVec_inj.mp
    apply BitVec.eq_of_getLsbD_eq
    intro i hi
    simp only [Writer.typeWord, UInt32.toBitVec_toUInt8, UInt32.toBitVec_shiftRight,
      UInt32.toBitVec_and, UInt32.toBitVec_or, UInt32.toBitVec_shiftLeft, UInt8.toBitVec_toUInt32]
    interval_cases i <;> simp [hhigh]
  rw [hcode, hflags]
  exact pure _

lemma var (scope : Scope) {v : Variable} (h : v.IsStored)
    (hfits : ∀ count ∈ v.counts, Counts sizes count) :
    Reads sizes (Read.var scope) v.bytes { v with scope } := by
  obtain ⟨hname, htext⟩ := List.forall_mem_append.mp hfits
  refine nameFlag_bind (word_bind ((packed h.type).bind (offset_bind fun here => word_bind ?_)))
  refine (name h.name hname).bind ?_
  rw [h.type.2]
  have hfits := h.fits
  have hnul := h.text
  obtain ⟨id, name, _, type, flags, value⟩ := v
  cases value with
  | string text =>
    obtain rfl : type = .string := by cases type <;> first | rfl | cases hfits
    have hread := Reads.text (hnul text rfl) (htext _ List.mem_cons_self)
    exact hread.map.bind_pure (pure _)
  | int value =>
    obtain rfl : type = .int := by cases type <;> first | rfl | cases hfits
    exact pure _
  | float value =>
    obtain rfl : type = .float := by cases type <;> first | rfl | cases hfits
    exact pure _
  | raw word =>
    obtain ⟨code, rfl⟩ : ∃ code, type = .raw code := by
      cases type <;> first | exact ⟨_, rfl⟩ | cases hfits
    exact pure _

lemma vars {scope : Scope} {vs : List Variable} (h : ∀ v ∈ vs, v.scope = scope ∧ v.IsStored)
    (hfits : ∀ count ∈ vs.length :: vs.flatMap Variable.counts, Counts sizes count) :
    Reads sizes (Read.vars scope) (bytesOfList Variable.bytes vs) (.ofList vs) := by
  obtain ⟨hlength, heach⟩ := List.forall_mem_cons.mp hfits
  have hread (v : Variable) (hv : v ∈ vs) : Reads sizes (Read.var scope) v.bytes v := by
    have := var scope (h v hv).2 fun count hc => heach count (List.mem_flatMap_of_mem hv hc)
    rwa [← (h v hv).1] at this ⊢
  refine (counted hread (fun v => ?_) hlength).bind_pure (pure _)
  simp [Variable.bytes, length_bytesOfWords]
  omega

lemma imported {i : Import} (h : ∀ name ∈ i.name, NulFree name)
    (hfits : ∀ count ∈ nameCounts i.name, Counts sizes count) :
    Reads sizes Read.imported i.bytes i := by
  refine nameFlag_bind ?_
  refine word_bind (word_bind (word_bind (word_bind (word_bind (word_bind ?_)))))
  exact (name h hfits).bind_pure (pure _)

lemma label {l : Label} (h : ∀ name ∈ l.name, NulFree name)
    (hfits : ∀ count ∈ nameCounts l.name, Counts sizes count) :
    Reads sizes Read.label l.bytes l := by
  refine nameFlag_bind (word_bind (word_bind ?_))
  exact (name h hfits).bind_pure (pure _)

section Placed

variable {reach : Nat} (hreach : ∀ size, sizes size → reach ≤ size)
include hreach

lemma table {t : Table} (h : t.IsStored reach)
    (hfits : ∀ count ∈ nameCounts t.name, Counts sizes count) :
    Reads sizes Read.table t.declaration t.emptied := by
  refine nameFlag_bind (word_bind ?_)
  refine offset_bind fun here => word_bind ?_
  have hcode : ElementType.ofCode? t.type.code = some t.type := by cases t.type <;> rfl
  rw [hcode]
  have hstart := wordOffset h.start fun size hsize => h.inside.trans (hreach size hsize)
  exact word_bind (hstart.bind ((name h.name hfits).bind_pure (pure _)))

lemma tables {ts : List Table} (h : ∀ t ∈ ts, t.IsStored reach)
    (hfits : ∀ count ∈ ts.length :: ts.flatMap (nameCounts ∘ Table.name), Counts sizes count) :
    Reads sizes Read.tables (bytesOfList Table.declaration ts) (.ofList (ts.map Table.emptied)) := by
  obtain ⟨hlength, heach⟩ := List.forall_mem_cons.mp hfits
  refine (counted_map (fun t ht => table hreach (h t ht) fun count hc => ?_) (fun t => ?_)
    hlength).bind_pure (pure _)
  · exact heach count (List.mem_flatMap_of_mem ht hc)
  · simp [Table.declaration, length_bytesOfWords]
    omega

omit hreach in
lemma labels {ls : List Label} (h : ∀ l ∈ ls, ∀ name ∈ l.name, NulFree name)
    (hfits : ∀ count ∈ ls.length :: ls.flatMap (nameCounts ∘ Label.name), Counts sizes count) :
    Reads sizes (Read.counted Read.label) (bytesOfList Label.bytes ls) ls := by
  obtain ⟨hlength, heach⟩ := List.forall_mem_cons.mp hfits
  refine counted (fun l hl => label (h l hl) fun count hc => ?_) (fun l => ?_) hlength
  · exact heach count (List.mem_flatMap_of_mem hl hc)
  · simp [Label.bytes, length_bytesOfWords]
    omega

lemma function {f : Function} (h : f.IsStored reach)
    (hfits : ∀ count ∈ f.counts, Counts sizes count) :
    Reads sizes Read.function f.declaration f.bare := by
  rw [Function.counts, List.forall_mem_append, List.forall_mem_append, List.forall_mem_append] at hfits
  obtain ⟨hname, hvars, htables, hlabels⟩ := hfits
  have hstart := wordOffset h.start fun size hsize => h.inside.1.trans (hreach size hsize)
  have hstop := wordOffset h.stop fun size hsize => h.inside.2.trans (hreach size hsize)
  refine nameFlag_bind (word_bind (word_bind (word_bind (hstart.bind (hstop.bind ?_)))))
  refine word_bind (word_bind ((name h.name hname).bind ((vars h.vars hvars).bind ?_)))
  refine (tables hreach h.tables htables).bind ((labels h.labels hlabels).bind_pure ?_)
  have hpublic : ((if f.isPublic then 1 else 0 : UInt32) != 0) = f.isPublic := by
    cases f.isPublic <;> rfl
  have hbare : ({ Function.new f.id with
      name := f.name, isPublic := f.isPublic, unknown := f.unknown, codeStart := f.codeStart,
      codeEnd := f.codeEnd, vars := f.vars, tables := f.bare.tables, labels := f.labels } :
      Function) = f.bare := rfl
  have htables : Registry.ofList (f.tables.records.map Table.emptied) = f.bare.tables :=
    f.bare.tables.ofList_records
  rw [hpublic, Registry.ofList_records, Registry.ofList_records, htables, ← hbare]
  exact pure _

end Placed

end Reads

/-- The function with its variables as its own. -/
def Function.owning (f : Function) : Function :=
  { f with vars := f.vars.map (fun v => { v with scope := .owned }) fun _ => rfl }

lemma Function.declaration_owning (f : Function) : f.owning.declaration = f.declaration := by
  have hvars : bytesOfList Variable.bytes f.owning.vars.records =
      bytesOfList Variable.bytes f.vars.records := by
    simp only [owning, bytesOfList, Registry.records_map, List.length_map, List.flatMap_map]
    rfl
  rw [declaration, declaration, hvars]
  rfl

lemma Function.counts_owning (f : Function) : f.owning.counts = f.counts := by
  simp only [owning, counts, Registry.size_map, Registry.records_map, List.flatMap_map]
  rfl

/-- Written from a word on, the record is read as `x` in a container of at least `reach` bytes: writing
appends bytes, and reading takes them up, whatever follows, and stops where they end. -/
def ReadsBack {α : Type} (write : Writer → Except Error Writer) (read : Read α) (reach : Nat)
    (x : α) : Prop :=
  ∀ w : Writer, 4 ∣ w.position → ∃ bytes, write w = .ok (w.append bytes) ∧ ∀ rest : List UInt8,
    let container := (w.append bytes).bytes ++ rest
    reach ≤ container.size →
      read ⟨container, w.position⟩ = .ok x ⟨container, (w.append bytes).position⟩

namespace ReadsBack

variable {α : Type} {write : Writer → Except Error Writer} {read : Read α} {reach : Nat} {x : α}

lemma of_reads {bytes : List UInt8} (h : Reads (fun size => reach ≤ size) read bytes x)
    (hwrite : ∀ w : Writer, 4 ∣ w.position → write w = .ok (w.append bytes)) :
    ReadsBack write read reach x := by
  intro w hw
  refine ⟨bytes, hwrite w hw, ?_⟩
  intro rest container hreach
  have hshows : Reader.Shows ⟨container, w.position⟩ (bytes ++ rest) := by
    refine ⟨w.bytes.toList, ?_, Array.length_toList⟩
    rw [Array.toList_appendList, w.toList_append, List.append_assoc]
  rw [h ⟨container, w.position⟩ rest hreach hshows, w.position_append]
  rfl

/-- Every record is read back as it was written: a variable in the storage class that the reader is
told, a table without values, and a function without code, with the variables as its own and with its
tables and labels in order. A number that is written before a text or a list must fit the word that
holds it. -/
theorem records_read_back :
    (∀ (v : Variable) (scope : Scope), v.IsStored → (∀ count ∈ v.counts, count < UInt32.size) →
      ReadsBack (fun w => w.var v) (Read.var scope) 0 { v with scope }) ∧
    (∀ i : Import, (∀ name ∈ i.name, NulFree name) →
      (∀ count ∈ nameCounts i.name, count < UInt32.size) →
      ReadsBack (fun w => .ok (w.imported i)) Read.imported 0 i) ∧
    (∀ l : Label, (∀ name ∈ l.name, NulFree name) →
      (∀ count ∈ nameCounts l.name, count < UInt32.size) →
      ReadsBack (fun w => .ok (w.label l)) Read.label 0 l) ∧
    (∀ (t : Table) (reach : Nat), t.IsStored reach →
      (∀ count ∈ nameCounts t.name, count < UInt32.size) →
      ReadsBack (fun w => .ok (w.table t)) Read.table reach t.emptied) ∧
    (∀ (f : Function) (reach : Nat), f.owning.IsStored reach →
      (∀ count ∈ f.counts, count < UInt32.size) →
      ReadsBack (fun w => w.function f) Read.function reach f.owning.bare) := by
  have hcounts {sizes : Nat → Prop} {counts : List Nat} (h : ∀ count ∈ counts, count < UInt32.size) :
      ∀ count ∈ counts, Counts sizes count := fun count hc _ _ _ => h count hc
  refine ⟨fun v scope h hfits => ?_, fun i h hfits => ?_, fun l h hfits => ?_,
    fun t reach h hfits => ?_, fun f reach h hfits => ?_⟩
  · refine of_reads (Reads.var scope h (hcounts hfits)) fun w hw => ?_
    exact (Writer.var_yields hw v).eq_ok h.fits
  · exact of_reads (Reads.imported h (hcounts hfits)) fun w hw =>
      congrArg Except.ok (Writer.imported_eq hw i)
  · exact of_reads (Reads.label h (hcounts hfits)) fun w hw =>
      congrArg Except.ok (Writer.label_eq hw l)
  · exact of_reads (Reads.table (fun _ hsize => hsize) h (hcounts hfits)) fun w hw =>
      congrArg Except.ok (Writer.table_eq hw t)
  · rw [← f.counts_owning] at hfits
    refine of_reads (Reads.function (fun _ hsize => hsize) h (hcounts hfits)) fun w hw => ?_
    have hvars : ∀ v ∈ f.vars.records, v.value.fits v.type = true := fun v hv =>
      (h.vars _ (List.mem_map_of_mem hv)).2.fits
    rw [f.declaration_owning]
    exact (Writer.function_yields hw f).eq_ok hvars

/-- A variable of a container, with a text after its name. -/
def visitor : Variable := ⟨2, some "visitor", .static, .string, 0x80, .string "someone"⟩

/-- An import with a name. -/
def chime : Import := ⟨9, some "chime", ⟨1, 2, 3, 4, 5⟩⟩

/-- A table with elements. -/
def volumes : Table := ⟨3, some "volumes", .int, 2, 16, .ints [5, 6]⟩

/-- A label with a name. -/
def again : Label := ⟨4, some "again", 3⟩

/-- A function with a record of each kind, whose code is known. -/
def doorbell : Function :=
  { Function.new 1 with
    name := some "ring", isPublic := true, isInline := true, isDeclared := false,
    codeStart := 8, codeEnd := 24, code := [.return],
    vars := .ofList [visitor], tables := .ofList [volumes], labels := .ofList [again, ⟨5, none, 2⟩] }

theorem doorbell_read_back :
    ReadsBack (fun w => w.var visitor) (Read.var .owned) 0 { visitor with scope := .owned } ∧
      ReadsBack (fun w => .ok (w.imported chime)) Read.imported 0 chime ∧
      ReadsBack (fun w => .ok (w.label again)) Read.label 0 again ∧
      ReadsBack (fun w => .ok (w.table volumes)) Read.table 24 volumes.emptied ∧
      ReadsBack (fun w => w.function doorbell) Read.function 24 doorbell.owning.bare := by
  obtain ⟨hvar, himport, hlabel, htable, hfunction⟩ := records_read_back
  have hvisitor : visitor.IsStored :=
    ⟨by decide +kernel, by decide, rfl, fun text h => by cases h; decide +kernel⟩
  have hvolumes : volumes.IsStored 24 := ⟨by decide +kernel, by decide, by decide⟩
  have howned : { visitor with scope := .owned }.IsStored :=
    ⟨hvisitor.name, hvisitor.type, hvisitor.fits, hvisitor.text⟩
  have hdoorbell : doorbell.owning.IsStored 24 := by
    refine ⟨by decide +kernel, by decide, by decide, by decide, ?_, ?_, by decide +kernel⟩
    · exact List.forall_mem_singleton.mpr ⟨rfl, howned⟩
    · exact List.forall_mem_singleton.mpr hvolumes
  refine ⟨hvar visitor .owned hvisitor (by decide), himport chime (by decide +kernel) (by decide),
    hlabel again (by decide +kernel) (by decide), htable volumes 24 hvolumes (by decide),
    hfunction doorbell 24 hdoorbell (by decide)⟩

end ReadsBack

end ScriptContainer
