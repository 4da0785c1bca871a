import ScriptContainer.Document.Writing
import ScriptContainer.Proofs.Rendering

/-!
# Members that are read back

What is written under a key is found under it, and every simple value is read as what it was written for.
-/

namespace ScriptContainer.Json

open Number

variable {P : Numeral → Prop} {α : Type}

/-- A reader goes on with what it has read. Stated for the steps of a `do` block, so that they need not be
unfolded. -/
lemma some_bind {β : Type} (x : α) (next : α → Option β) : (some x >>= next) = next x := rfl

section Values

lemma text?_ofText (text : String) : text? (ofText text) = some text := by
  rw [ofText, text?, unescape?_escape, Option.map_some, String.ofList_toList]

lemma bool?_bool (value : Bool) : bool? (.bool value) = some value := by
  rw [bool?]

lemma int?_ofNat (n : Nat) : int? (ofNat n) = some n := Numeral.toInt?_ofNat n

lemma int?_ofInt (n : Int) : int? (ofInt n) = some n := Numeral.toInt?_ofInt n

lemma below?_ofNat {n bound : Nat} (h : n < bound) : below? bound (ofNat n) = some n := by
  have hbound : (0 : Int) ≤ n ∧ (n : Int) < bound := by omega
  rw [below?, int?_ofNat]
  exact (if_pos hbound).trans (congrArg some (Int.toNat_natCast n))

lemma word?_ofWord (w : UInt32) : word? (ofWord w) = some w := by
  rw [word?, ofWord, below?_ofNat w.toNat_lt, Option.map_some, UInt32.ofNat_toNat]

lemma byte?_ofByte (b : UInt8) : byte? (ofByte b) = some b := by
  rw [byte?, ofByte, below?_ofNat b.toNat_lt, Option.map_some, UInt8.ofNat_toNat]

lemma signed?_ofSigned (n : Int32) : signed? (ofSigned n) = some n := by
  have hbounds : -2147483648 ≤ n.toInt ∧ n.toInt < 2147483648 := ⟨n.le_toInt, n.toInt_lt⟩
  rw [signed?, ofSigned, int?_ofInt]
  dsimp only
  rw [if_pos hbounds, Int32.ofInt_toInt]

lemma list?_ofList_eq_some_iff {read : Json → Option α} {write : α → Json} {xs : List α} :
    list? read (ofList write xs) = some xs ↔ ∀ x ∈ xs, read (write x) = some x := by
  change (xs.map write).mapM read = some xs ↔ _
  induction xs with
  | nil => simp
  | cons x xs ih =>
    rw [List.map_cons, List.mapM_cons, List.forall_mem_cons, ← ih]
    simp [Option.bind_eq_some_iff]

lemma list?_ofList {read : Json → Option α} {write : α → Json} (h : ∀ x, read (write x) = some x)
    (xs : List α) : list? read (ofList write xs) = some xs :=
  list?_ofList_eq_some_iff.mpr fun x _ => h x

lemma list?_ofList_eq_none {read : Json → Option α} {write : α → Json} {xs : List α} {x : α}
    (hx : x ∈ xs) (h : read (write x) = none) : list? read (ofList write xs) = none := by
  change (xs.map write).mapM read = none
  induction xs with
  | nil => cases hx
  | cons y xs ih =>
    rw [List.map_cons, List.mapM_cons]
    rcases List.mem_cons.mp hx with rfl | hx
    · rw [h]
      rfl
    · rw [ih hx]
      cases read (write y) <;> rfl

end Values

section Written

lemma made_ofText (text : String) : (ofText text).Made P := .string _

lemma made_ofMembers {members : List (String × Json)} (h : ∀ m ∈ members, m.2.Made P) :
    (ofMembers members).Made P := by
  refine .object (fun m hm => ?_) fun m hm => ?_
  · obtain ⟨found, -, rfl⟩ := List.mem_map.mp hm
    exact ⟨_, rfl⟩
  · obtain ⟨found, hfound, rfl⟩ := List.mem_map.mp hm
    exact h found hfound

lemma made_ofTagged {tag : String} {value : Json} (h : value.Made P) : (ofTagged tag value).Made P :=
  made_ofMembers (List.forall_mem_singleton.mpr h)

lemma made_ofList {write : α → Json} {xs : List α} (h : ∀ x ∈ xs, (write x).Made P) :
    (ofList write xs).Made P := by
  refine .array fun item hitem => ?_
  obtain ⟨x, hx, rfl⟩ := List.mem_map.mp hitem
  exact h x hx

end Written

section Members

lemma fields?_ofMembers (members : List (String × Json)) : fields? (ofMembers members) = some members := by
  rw [ofMembers, fields?]
  induction members with
  | nil => rfl
  | cons found members ih =>
    obtain ⟨key, value⟩ := found
    rw [List.map_cons, List.mapM_cons, ih]
    simp [member, unescape?_escape]

lemma tagged?_ofTagged (tag : String) (value : Json) :
    tagged? (ofTagged tag value) = some (tag, value) := by
  rw [tagged?, ofTagged, fields?_ofMembers]

variable {fields more : Fields} {key other : String} {value : Json} {read : Json → Option α} {x : α}

namespace Fields

/-- The values under the key of a list, which is left out if it is empty. -/
def listed (write : α → Json) : List α → List Json
  | [] => []
  | x :: xs => [ofList write (x :: xs)]

@[simp] lemma under_nil (key : String) : under [] key = [] := rfl

@[simp] lemma under_cons_self (key : String) (value : Json) (fields : Fields) :
    under ((key, value) :: fields) key = value :: fields.under key := by
  simp [under]

@[simp] lemma under_append (fields more : Fields) (key : String) :
    under (fields ++ more) key = fields.under key ++ more.under key := by
  simp [under]

@[simp] lemma under_cons_of_ne (h : key ≠ other) (value : Json) (fields : Fields) :
    under ((key, value) :: fields) other = fields.under other := by
  simp [under, h]

@[simp] lemma under_nameMember (name : Option String) :
    under (nameMember name) "name" = name.toList.map ofText := by
  cases name with
  | none => rfl
  | some name => exact under_cons_self "name" _ []

@[simp] lemma under_nameMember_of_ne (h : "name" ≠ other) (name : Option String) :
    under (nameMember name) other = [] := by
  cases name with
  | none => rfl
  | some name => exact under_cons_of_ne h _ []

@[simp] lemma under_listMember (key : String) (write : α → Json) (xs : List α) :
    under (listMember key write xs) key = listed write xs := by
  cases xs with
  | nil => rfl
  | cons x xs => exact under_cons_self key _ []

@[simp] lemma under_listMember_of_ne (h : key ≠ other) (write : α → Json) (xs : List α) :
    under (listMember key write xs) other = [] := by
  unfold listMember
  split
  · rfl
  · exact under_cons_of_ne h _ []

lemma required_of_under (h : fields.under key = [value]) (read : Json → Option α) :
    fields.required key read = read value := by
  rw [required, h]

lemma required_eq (h : fields.under key = [value]) (hread : read value = some x) :
    fields.required key read = some x := by
  rw [required_of_under h, hread]

/-- What the values under a key that may be missing are read as. -/
def oneOr (read : Json → Option α) (other : α) : List Json → Option α
  | [] => some other
  | [value] => read value
  | _ => none

lemma optional_eq_oneOr (fields : Fields) (key : String) (read : Json → Option α) (other : α) :
    fields.optional key read other = oneOr read other (fields.under key) := by
  unfold optional oneOr
  rfl

lemma optional_eq {y : α} (h : fields.under key = [value]) (hread : read value = some x) :
    fields.optional key read y = some x := by
  rw [optional_eq_oneOr, h, oneOr, hread]

@[simp] lemma oneOr_singleton (read : Json → Option α) (other : α) (value : Json) :
    oneOr read other [value] = read value := by
  rw [oneOr]

@[simp] lemma oneOr_name (name : Option String) :
    oneOr (nullable? text?) none (name.toList.map ofText) = some name := by
  cases name with
  | none => rfl
  | some name =>
    change (text? (ofText name)).map some = _
    rw [text?_ofText]
    rfl

@[simp] lemma oneOr_listed (read : Json → Option α) (write : α → Json) (xs : List α) :
    oneOr (list? read) [] (listed write xs) = list? read (ofList write xs) := by
  cases xs <;> rfl

end Fields

end Members

end ScriptContainer.Json
