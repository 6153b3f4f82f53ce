/-
  Operators on values.

  * Two integers give an integer, exact or an overflow fault; `/` cuts towards zero and `%` is the
    remainder that goes with it, so it has the sign of the dividend.
  * An integer beside a float is widened to a float first.
  * Division and remainder by zero are faults for floats too.
  * `+` also joins strings, and strings are ordered by code points.
-/
import Scriptlet.Eval.Fault

namespace Scriptlet

/-! ## Unary operators -/

/-- The value of a unary operator. -/
def UnaryOp.apply (op : UnaryOp) (v : Value) : Except RuntimeFault Value :=
  match op, v with
  | .not, v => .ok (.bool !v.isTruthy)
  | .negate, .integer n =>
    match Integer.fit? (-n.toInt) with
    | some m => .ok (.integer m)
    | none => .error .integerOverflow
  | .negate, .float x => .ok (.float (-x))
  | .negate, v => .error (.typeMismatch op.symbol.text v.type none)

/-! ## Logical operators -/

/-- Whether the left operand decides a logical operator. -/
def LogicalOp.decidedBy (op : LogicalOp) (left : Value) : Bool :=
  match op with
  | .and => !left.isTruthy
  | .or => left.isTruthy

/-! ## Equality and comparison -/

/-- The value of an equality operator. -/
def EqualityOp.apply (op : EqualityOp) (left right : Value) : Value :=
  match op with
  | .equal => .bool (left.equals right)
  | .notEqual => .bool !left.equals right

/-- The order of two floats; none beside a float that is no number. -/
def floatOrder (x y : Float) : Option Ordering :=
  if x < y then some .lt else if x == y then some .eq else if y < x then some .gt else none

/-- The order of two values: none if their types are not ordered, and none inside if the values
    are not. -/
def Value.order? (left right : Value) : Option (Option Ordering) :=
  match left, right with
  | .integer a, .integer b => some (some (compare a.toInt b.toInt))
  | .integer a, .float b => some (floatOrder (Value.widen a) b)
  | .float a, .integer b => some (floatOrder a (Value.widen b))
  | .float a, .float b => some (floatOrder a b)
  | .str a, .str b => some (some (compareOfLessAndEq a b))
  | _, _ => none

/-- Whether a comparison holds of two values with this order. -/
def ComparisonOp.holds (op : ComparisonOp) (order : Option Ordering) : Bool :=
  match op, order with
  | _, none => false
  | .less, some o => o == .lt
  | .lessEqual, some o => o != .gt
  | .greater, some o => o == .gt
  | .greaterEqual, some o => o != .lt

/-- The value of a comparison operator. -/
def ComparisonOp.apply (op : ComparisonOp) (left right : Value) : Except RuntimeFault Value :=
  match left.order? right with
  | some order => .ok (.bool (op.holds order))
  | none =>
    .error (.typeMismatch (BinaryOp.comparison op).symbol.text left.type (some right.type))

/-! ## Arithmetic -/

namespace ArithmeticOp

/-- Whether an operator divides. -/
def divides : ArithmeticOp → Bool
  | divide | remainder => true
  | _ => false

/-- The exact value of an operator on integers, for a nonzero divisor. -/
def onInt (op : ArithmeticOp) (a b : Int) : Int :=
  match op with
  | add => a + b
  | subtract => a - b
  | multiply => a * b
  | divide => a.tdiv b
  | remainder => a.tmod b

/-- Whether the quotient that an operator goes through stays in range.  A remainder comes with its
    quotient, and the quotient of the least integer by minus one is out of range. -/
def quotientFits (op : ArithmeticOp) (a b : Int) : Bool :=
  match op with
  | remainder => (Integer.fit? (a.tdiv b)).isSome
  | _ => true

/-- An operator on two integers. -/
def onIntegers (op : ArithmeticOp) (a b : Int64) : Except RuntimeFault Value :=
  if op.divides && b == 0 then .error .divisionByZero
  else if !op.quotientFits a.toInt b.toInt then .error .integerOverflow
  else
    match Integer.fit? (op.onInt a.toInt b.toInt) with
    | some n => .ok (.integer n)
    | none => .error .integerOverflow

/-- An operator on two floats. -/
def onFloats (op : ArithmeticOp) (x y : Float) : Except RuntimeFault Value :=
  if op.divides && y == 0.0 then .error .divisionByZero
  else
    .ok (.float
      (match op with
      | add => x + y
      | subtract => x - y
      | multiply => x * y
      | divide => x / y
      | remainder => ((Binary64.ofFloat x).remainder (.ofFloat y)).toFloat))

/-- The value of an arithmetic operator. -/
def apply (op : ArithmeticOp) (left right : Value) : Except RuntimeFault Value :=
  match op, left, right with
  | add, .str a, .str b => .ok (.str (a ++ b))
  | op, .integer a, .integer b => op.onIntegers a b
  | op, .integer a, .float b => op.onFloats (Value.widen a) b
  | op, .float a, .integer b => op.onFloats a (Value.widen b)
  | op, .float a, .float b => op.onFloats a b
  | op, left, right =>
    .error (.typeMismatch (BinaryOp.arithmetic op).symbol.text left.type (some right.type))

end ArithmeticOp

/-- The value of a binary operator. -/
def BinaryOp.apply (op : BinaryOp) (left right : Value) : Except RuntimeFault Value :=
  match op with
  | .equality op => .ok (op.apply left right)
  | .comparison op => op.apply left right
  | .arithmetic op => op.apply left right

/-! ## Built-in functions -/

/-- The value of a built-in function at one argument. -/
def Builtin.apply (b : Builtin) (argument : Value) : Except RuntimeFault Value :=
  match b, argument with
  | .len, .str s => .ok (.integer (Int64.ofNat s.length))
  | .len, v => .error (.typeMismatch b.name v.type none)
  | .str, v => .ok (.str v.text)
  | .type, v => .ok (.str v.type.name)

end Scriptlet
