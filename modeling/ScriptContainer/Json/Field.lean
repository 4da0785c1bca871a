import ScriptContainer.Json.Value
import ScriptContainer.Number.Reading

/-!
# Reading typed values

A typed reader takes a value apart and fails where the value has another form. An object is read
by its keys: a key that is asked for may stand once only, keys that are not asked for are left
alone, and every key has to be readable text.
-/

namespace ScriptContainer.Json

open Number

/-- The value written for a text. -/
def ofText (text : String) : Json := .string (escape text.toList)

/-- The value written for an integer. -/
def ofInt (n : Int) : Json := .number (Numeral.ofInt n)

/-- The value written for a natural number. -/
def ofNat (n : Nat) : Json := .number (Numeral.ofNat n)

/-- The value written for a word. -/
def ofWord (word : UInt32) : Json := ofNat word.toNat

/-- A member with this key. -/
def member (key : String) (value : Json) : Member := ⟨escape key.toList, value⟩

def text? : Json → Option String
  | string body => (unescape? body).map String.ofList
  | _ => none

/-- The truth value. -/
def bool? : Json → Option Bool
  | bool value => some value
  | _ => none

def int? : Json → Option Int
  | number numeral => numeral.toInt?
  | _ => none

/-- A natural number below a bound. -/
def below? (bound : Nat) (value : Json) : Option Nat :=
  match int? value with
  | some n => if 0 ≤ n ∧ n < bound then some n.toNat else none
  | none => none

def word? (value : Json) : Option UInt32 := (below? UInt32.size value).map UInt32.ofNat

def byte? (value : Json) : Option UInt8 := (below? UInt8.size value).map UInt8.ofNat

/-- A signed integer of thirty-two bits. -/
def signed? (value : Json) : Option Int32 :=
  match int? value with
  | some n => if -2147483648 ≤ n ∧ n < 2147483648 then some (Int32.ofInt n) else none
  | none => none

/-- A float of single precision, from any number in the range of doubles. -/
def single? : Json → Option Single
  | number numeral => numeral.toSingle?
  | _ => none

/-- The items of an array, each taken apart by the same reader. -/
def list? {α : Type} (read : Json → Option α) : Json → Option (List α)
  | array items => items.mapM read
  | _ => none

/-- A value that may be null. -/
def nullable? {α : Type} (read : Json → Option α) : Json → Option (Option α)
  | null => some none
  | value => (read value).map some

/-- The members of an object under their readable keys. -/
abbrev Fields := List (String × Json)

def fields? : Json → Option Fields
  | object members => members.mapM fun m => (unescape? m.key).map fun key => (String.ofList key, m.value)
  | _ => none

/-- The single member of an object. -/
def tagged? (value : Json) : Option (String × Json) :=
  match fields? value with
  | some [found] => some found
  | _ => none

namespace Fields

/-- The values that stand under a key. -/
def under (fields : Fields) (key : String) : List Json :=
  (fields.filter fun found => found.1 == key).map Prod.snd

/-- The value under a key that has to be there. -/
def required {α : Type} (fields : Fields) (key : String) (read : Json → Option α) : Option α :=
  match fields.under key with
  | [value] => read value
  | _ => none

/-- The value under a key that may be missing. -/
def optional {α : Type} (fields : Fields) (key : String) (read : Json → Option α) (other : α) :
    Option α :=
  match fields.under key with
  | [] => some other
  | [value] => read value
  | _ => none

end Fields

mutual

/-- Whether a value can be taken up as a whole: nested at most `levels` deep, with readable
strings and with numbers in the range of doubles. -/
def isSound (levels : Nat) : Json → Bool
  | null | bool _ => true
  | number numeral => numeral.inRange
  | string body => (unescape? body).isSome
  | array items =>
    match levels with
    | 0 => false
    | levels + 1 => allSound levels items
  | object members =>
    match levels with
    | 0 => false
    | levels + 1 => allMembersSound levels members

/-- Whether all items can be taken up. -/
def allSound (levels : Nat) : List Json → Bool
  | [] => true
  | item :: items => isSound levels item && allSound levels items

/-- Whether a member can be taken up. -/
def Member.isSound (levels : Nat) : Member → Bool
  | ⟨key, value⟩ => (unescape? key).isSome && Json.isSound levels value

/-- Whether all members can be taken up. -/
def allMembersSound (levels : Nat) : List Member → Bool
  | [] => true
  | member :: members => member.isSound levels && allMembersSound levels members

end

end ScriptContainer.Json
