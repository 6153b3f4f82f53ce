/-
  Faults: why a run stops before its end.

  A fault is reported at a node, so an error carries the note of that node; for a parsed program
  the note tells the place in the source.
-/
import Scriptlet.Value

namespace Scriptlet

/-- Why a run stops. -/
inductive RuntimeFault where
  /-- No scope binds the name. -/
  | undefinedName (name : String)
  /-- An operation that does not take values of these types; one type for a single operand. -/
  | typeMismatch (operation : String) (left : ValueType) (right : Option ValueType)
  /-- Division or remainder by zero, of integers or floats. -/
  | divisionByZero
  /-- A call with the wrong number of arguments. -/
  | arity (name : String) (expected actual : Nat)
  /-- A call of a value that is no function. -/
  | notCallable (type : ValueType)
  /-- Integer arithmetic left the 64-bit range. -/
  | integerOverflow
  /-- More calls inside one another than allowed. -/
  | callDepthExceeded (limit : Nat)
  /-- More statements and expressions inside one another than allowed. -/
  | depthExceeded (limit : Nat)
  /-- A `return`, `break` or `continue` with nothing around it to end. -/
  | invalidControlFlow (keyword : Keyword)
  deriving Repr, DecidableEq

/-- The wording of a fault. -/
def RuntimeFault.message : RuntimeFault → String
  | undefinedName name => s!"undefined name '{name}'"
  | typeMismatch operation left (some right) =>
    s!"unsupported operand types for {operation}: {left.name} and {right.name}"
  | typeMismatch operation left none => s!"unsupported operand type for {operation}: {left.name}"
  | divisionByZero => "division by zero"
  | arity name expected actual => s!"{name} expects {expected} argument(s), got {actual}"
  | notCallable type => s!"value of type {type.name} is not callable"
  | integerOverflow => "integer overflow"
  | callDepthExceeded limit => s!"more than {limit} nested calls"
  | depthExceeded limit => s!"evaluation nested deeper than {limit} levels"
  | invalidControlFlow keyword => s!"'{keyword.text}' outside of its enclosing construct"

/-- A fault and the note of the node it is reported at. -/
structure RuntimeError (α : Type) where
  cause : RuntimeFault
  site : α
  deriving Repr, DecidableEq

/-- The wording of an error in a program with origins, with its place. -/
def RuntimeError.message (e : RuntimeError Origin) : String :=
  s!"{e.cause.message} {e.site.span.phrase}"

end Scriptlet
