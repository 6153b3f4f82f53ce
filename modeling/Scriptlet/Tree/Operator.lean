/-
  Operators and how tightly they bind.

  An infix operator is logical, and may skip its right operand, or binary, and takes the values of
  both operands.  The binary operators fall into three groups by the values they take: equality
  takes any two, comparisons and arithmetic take particular types.

  The table of precedence is the one that a tree is laid out with.  The parser has the levels of its
  grammar in its own rules.
-/
import Scriptlet.Token.Basic

namespace Scriptlet

/-! ## Precedence -/

/-- Binding strength, weakest first. -/
inductive Precedence where
  | assignment | or | and | equality | comparison | term | factor | unary | call
  deriving Repr, DecidableEq

namespace Precedence

/-- Position in the order of binding strength. -/
def rank : Precedence → Nat
  | assignment => 0
  | or => 1
  | and => 2
  | equality => 3
  | comparison => 4
  | term => 5
  | factor => 6
  | unary => 7
  | call => 8

instance : LE Precedence := ⟨fun p q => p.rank ≤ q.rank⟩

instance : LT Precedence := ⟨fun p q => p.rank < q.rank⟩

instance (p q : Precedence) : Decidable (p ≤ q) := inferInstanceAs (Decidable (p.rank ≤ q.rank))

instance (p q : Precedence) : Decidable (p < q) := inferInstanceAs (Decidable (p.rank < q.rank))

end Precedence

/-! ## Operators -/

/-- Operators before their operand. -/
inductive UnaryOp where
  | negate | not
  deriving Repr, DecidableEq

/-- The symbol of a unary operator. -/
def UnaryOp.symbol : UnaryOp → Symbol
  | negate => .minus
  | not => .bang

/-- Operators that evaluate their right operand only when the left one does not decide. -/
inductive LogicalOp where
  | and | or
  deriving Repr, DecidableEq

/-- Operators that compare any two values for equality. -/
inductive EqualityOp where
  | equal | notEqual
  deriving Repr, DecidableEq

/-- Operators that order two numbers or two strings. -/
inductive ComparisonOp where
  | less | lessEqual | greater | greaterEqual
  deriving Repr, DecidableEq

/-- Operators that compute a number; `add` also joins strings. -/
inductive ArithmeticOp where
  | add | subtract | multiply | divide | remainder
  deriving Repr, DecidableEq

/-- Operators that take the values of both operands. -/
inductive BinaryOp where
  | equality (op : EqualityOp)
  | comparison (op : ComparisonOp)
  | arithmetic (op : ArithmeticOp)
  deriving Repr, DecidableEq

/-- An infix operator. -/
inductive Operator where
  | logical (op : LogicalOp)
  | binary (op : BinaryOp)
  deriving Repr, DecidableEq

/-- The symbol of a binary operator. -/
def BinaryOp.symbol : BinaryOp → Symbol
  | equality .equal => .equalEqual
  | equality .notEqual => .bangEqual
  | comparison .less => .less
  | comparison .lessEqual => .lessEqual
  | comparison .greater => .greater
  | comparison .greaterEqual => .greaterEqual
  | arithmetic .add => .plus
  | arithmetic .subtract => .minus
  | arithmetic .multiply => .star
  | arithmetic .divide => .slash
  | arithmetic .remainder => .percent

/-- How tightly a binary operator binds. -/
def BinaryOp.precedence : BinaryOp → Precedence
  | equality _ => .equality
  | comparison _ => .comparison
  | arithmetic .add => .term
  | arithmetic .subtract => .term
  | arithmetic .multiply => .factor
  | arithmetic .divide => .factor
  | arithmetic .remainder => .factor

namespace Operator

/-- The symbol of an infix operator. -/
def symbol : Operator → Symbol
  | logical .and => .andAnd
  | logical .or => .orOr
  | binary op => op.symbol

/-- How tightly an infix operator binds. -/
def precedence : Operator → Precedence
  | logical .and => .and
  | logical .or => .or
  | binary op => op.precedence

end Operator

end Scriptlet
