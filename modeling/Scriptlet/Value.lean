/-
  Values of a running program.

  A function value is the number of a closure and the name it was defined with; which closure a
  number stands for is known to the machine that made it.  There are two equalities: `equals` is
  the `==` of the language, where an integer and a float are compared as floats and functions by
  their closure, and `same` compares the values as data.
-/
import Scriptlet.Number.Binary64
import Scriptlet.Number.Decimal
import Scriptlet.Number.Integer
import Scriptlet.Tree.Basic

namespace Scriptlet

/-! ## Types and built-in functions -/

/-- The type of a value. -/
inductive ValueType where
  | nil | bool | int | float | string | function | builtin
  deriving Repr, DecidableEq

/-- The name of a type, as `type` and error messages give it. -/
def ValueType.name : ValueType → String
  | nil => "nil"
  | bool => "bool"
  | int => "int"
  | float => "float"
  | string => "string"
  | function => "function"
  | builtin => "builtin"

/-- Functions that every program starts with. -/
inductive Builtin where
  /-- The number of characters of a string. -/
  | len
  /-- The text of a value. -/
  | str
  /-- The name of the type of a value. -/
  | type
  deriving Repr, DecidableEq

namespace Builtin

/-- The name a built-in function is bound to. -/
def name : Builtin → String
  | len => "len"
  | str => "str"
  | type => "type"

/-- Number of arguments. -/
def arity : Builtin → Nat
  | len | str | type => 1

/-- Every built-in function, in the order they are bound. -/
def all : List Builtin := [len, str, type]

end Builtin

/-! ## Values -/

/-- A value. -/
inductive Value where
  | nil
  | bool (b : Bool)
  | integer (n : Int64)
  | float (x : Float)
  | str (s : String)
  | function (id : Nat) (name : String)
  | builtin (b : Builtin)
  deriving DecidableEq

/-- The value a literal denotes. -/
def Literal.value : Literal → Value
  | .nil => .nil
  | .bool b => .bool b
  | .integer n => .integer n
  | .float x => .float x.toFloat
  | .str s => .str s

namespace Value

/-- The type of a value. -/
def type : Value → ValueType
  | nil => .nil
  | bool _ => .bool
  | integer _ => .int
  | float _ => .float
  | str _ => .string
  | function _ _ => .function
  | builtin _ => .builtin

/-- The text of a value, as `print` writes it. -/
def text : Value → String
  | nil => "nil"
  | bool b => Literal.boolText b
  | integer n => Integer.text n
  | float x => Decimal.floatText (.ofFloat x)
  | str s => s
  | function _ name => s!"<fn {name}>"
  | builtin b => s!"<builtin {b.name}>"

/-- Nil, false, zero and the empty string are false; all else is true. -/
def isTruthy : Value → Bool
  | nil => false
  | bool b => b
  | integer n => n != 0
  | float x => x != 0.0
  | str s => s != ""
  | function _ _ => true
  | builtin _ => true

/-- Equality as data: no crossing between types, and floats compare as numbers. -/
def same : Value → Value → Bool
  | nil, nil => true
  | bool a, bool b => a == b
  | integer a, integer b => a == b
  | float a, float b => a == b
  | str a, str b => a == b
  | function i f, function j g => i == j && f == g
  | builtin a, builtin b => a == b
  | _, _ => false

/-- An integer as a float. -/
def widen (n : Int64) : Float := (Binary64.ofInt n.toInt).toFloat

/-- Equality of the language. -/
def equals : Value → Value → Bool
  | integer a, float b => widen a == b
  | float a, integer b => a == widen b
  | function i _, function j _ => i == j
  | a, b => same a b

/-- The closure that a function value names. -/
def closure? : Value → Option Nat
  | function id _ => some id
  | _ => none

end Value

end Scriptlet
