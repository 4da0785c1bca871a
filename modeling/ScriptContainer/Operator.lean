/-!
# Operators

Operators stand only inside expressions. Their codes lie apart from the opcodes and leave out
the word that closes an expression.
-/

namespace ScriptContainer

/-- An operator, a parenthesis, or the separator `next`. -/
inductive Operator where
  | next | leftParen | rightParen | or | and | bitOr | bitAnd | bitXor | shl | shr
  | eq | neq | gt | lt | gte | lte | inc | dec | mod | add | sub | mul | div
  deriving DecidableEq, Repr

namespace Operator

/-- The word that stands for the operator. -/
def code : Operator → UInt32
  | next => 0x3f
  | leftParen => 0x41
  | rightParen => 0x42
  | or => 0x43
  | and => 0x44
  | bitOr => 0x45
  | bitAnd => 0x46
  | bitXor => 0x47
  | shl => 0x48
  | shr => 0x49
  | eq => 0x4a
  | neq => 0x4b
  | gt => 0x4c
  | lt => 0x4d
  | gte => 0x4e
  | lte => 0x4f
  | inc => 0x50
  | dec => 0x51
  | mod => 0x52
  | add => 0x53
  | sub => 0x54
  | mul => 0x55
  | div => 0x56

/-- The spelling of the operator in a document. -/
def symbol : Operator → String
  | next => "next"
  | leftParen => "("
  | rightParen => ")"
  | or => "||"
  | and => "&&"
  | bitOr => "|"
  | bitAnd => "&"
  | bitXor => "^"
  | shl => "<<"
  | shr => ">>"
  | eq => "=="
  | neq => "!="
  | gt => ">"
  | lt => "<"
  | gte => ">="
  | lte => "<="
  | inc => "++"
  | dec => "--"
  | mod => "%"
  | add => "+"
  | sub => "-"
  | mul => "*"
  | div => "/"

def all : List Operator :=
  [next, leftParen, rightParen, or, and, bitOr, bitAnd, bitXor, shl, shr, eq, neq, gt, lt, gte,
    lte, inc, dec, mod, add, sub, mul, div]

/-- The operator of a word, if it is one. -/
def ofCode? (word : UInt32) : Option Operator := all.find? fun operator => operator.code == word

def ofSymbol? (text : String) : Option Operator :=
  all.find? fun operator => operator.symbol == text

theorem ofCode?_code (operator : Operator) : ofCode? operator.code = some operator := by
  cases operator <;> rfl

theorem code_of_ofCode? {word : UInt32} {operator : Operator}
    (h : ofCode? word = some operator) : operator.code = word := by
  simpa using List.find?_some h

theorem ofSymbol?_symbol (operator : Operator) : ofSymbol? operator.symbol = some operator := by
  cases operator <;> decide

end Operator

end ScriptContainer
