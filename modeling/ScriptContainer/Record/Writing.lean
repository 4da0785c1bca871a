import ScriptContainer.Bytes.Writer
import ScriptContainer.Script

/-!
# Writing records

Records are written as they are read: a word that says whether there is a name, the fixed part,
the name, and for a variable of text its value.
-/

namespace ScriptContainer

namespace Writer

/-- The word that says whether a record has a name. -/
def nameFlag (w : Writer) (name : Option String) : Writer :=
  w.word (if name.isSome then 0xffffffff else 0)

/-- The name of a record that has one. -/
def name (w : Writer) : Option String → Writer
  | some name => w.text name
  | none => w

/-- The word of a value; a text follows its record instead. -/
def valueWord : Value → UInt32
  | .int value => value.toUInt32
  | .float value => value.bits
  | .string _ => 0
  | .raw word => word

/-- The word that holds a type code and the flags beside it. -/
def typeWord (v : Variable) : UInt32 :=
  (v.type.code &&& (0xffffff : UInt32)) ||| (v.flags.toUInt32 <<< 24)

/-- A variable whose value fits its type. -/
def var (w : Writer) (v : Variable) : Except Error Writer :=
  if v.value.fits v.type then
    let w := ((w.nameFlag v.name).words [v.id, typeWord v, valueWord v.value]).name v.name
    match v.value with
    | .string text => .ok (w.text text)
    | _ => .ok w
  else .error (.typeMismatch (.variable v.describe v.type v.value))

def vars (w : Writer) (vs : List Variable) : Except Error Writer :=
  vs.foldlM var (w.word (UInt32.ofNat vs.length))

def imported (w : Writer) (i : Import) : Writer :=
  ((w.nameFlag i.name).words
    [i.unknown.a, i.unknown.b, i.unknown.c, i.id, i.unknown.d, i.unknown.e]).name i.name

def imports (w : Writer) (is : List Import) : Writer :=
  is.foldl imported (w.word (UInt32.ofNat is.length))

def label (w : Writer) (l : Label) : Writer :=
  ((w.nameFlag l.name).words [l.id, l.address]).name l.name

def labels (w : Writer) (ls : List Label) : Writer :=
  ls.foldl label (w.word (UInt32.ofNat ls.length))

def table (w : Writer) (t : Table) : Writer :=
  ((w.nameFlag t.name).words [t.id, t.type.code, t.length, t.start / 4]).name t.name

/-- Declarations of tables after their number. -/
def tables (w : Writer) (ts : List Table) : Writer :=
  ts.foldl table (w.word (UInt32.ofNat ts.length))

/-- The declaration of a function with the records that it owns. -/
def function (w : Writer) (f : Function) : Except Error Writer := do
  let w := ((w.nameFlag f.name).words
    [f.id, if f.isPublic then 1 else 0, f.unknown.a, f.codeStart / 4, f.codeEnd / 4,
      f.unknown.b, f.unknown.c]).name f.name
  let w ← w.vars f.vars.records
  return (w.tables f.tables.records).labels f.labels.records

/-- Declarations of functions after their number. -/
def functions (w : Writer) (fs : List Function) : Except Error Writer :=
  fs.foldlM function (w.word (UInt32.ofNat fs.length))

end Writer

end ScriptContainer
