/-
  Program trees.

  Every node carries a note of a type `α` chosen by the user of the tree: a parsed tree notes where
  each node stands in the source (`Origin`), a tree of bare shapes notes nothing (`Unit`).  What a
  program means and how it is laid out never depends on the notes.
-/
import Scriptlet.Tree.Operator
import Scriptlet.Number.Binary64
import Scriptlet.Number.Decimal
import Scriptlet.Number.Integer
import Scriptlet.Text.Quoted

namespace Scriptlet

/-! ## Literals -/

/-- A value written out in source. -/
inductive Literal where
  | nil
  | bool (b : Bool)
  | integer (n : Int64)
  | float (x : Binary64)
  | str (s : String)
  deriving DecidableEq

namespace Literal

/-- Source form of a truth value. -/
def boolText (b : Bool) : String := if b then "true" else "false"

/-- Source form; a string is quoted and escaped. -/
def text : Literal → String
  | nil => "nil"
  | bool b => boolText b
  | integer n => Integer.text n
  | float x => Decimal.floatText x
  | str s => String.ofList (Text.quote s.toList)

/-- Whether a number has a minus sign; a float has one when its sign bit is set. -/
def isNegative : Literal → Bool
  | integer n => n < 0
  | float x => x.isNegative
  | _ => false

end Literal

/-! ## Expressions -/

/-- An expression with a note at every node. -/
inductive Expr (α : Type) where
  | literal (note : α) (value : Literal)
  /-- Reference to a named binding. -/
  | name (note : α) (name : String)
  | unary (note : α) (op : UnaryOp) (operand : Expr α)
  | operation (note : α) (op : Operator) (left right : Expr α)
  /-- Assignment `name = value`, an expression with the assigned value. -/
  | assign (note : α) (name : String) (value : Expr α)
  | call (note : α) (callee : Expr α) (arguments : List (Expr α))

namespace Expr

variable {α : Type}

/-- The note of the top node. -/
def note : Expr α → α
  | literal a _ | name a _ | unary a _ _ | operation a _ _ _ | assign a _ _ | call a _ _ => a

/-- How tightly the top of an expression binds.  A literal with a minus sign reads as a negation. -/
def precedence : Expr α → Precedence
  | literal _ v => if v.isNegative then .unary else .call
  | name _ _ => .call
  | unary _ _ _ => .unary
  | operation _ op _ _ => op.precedence
  | assign _ _ _ => .assignment
  | call _ _ _ => .call

end Expr

/-! ## Statements -/

/-- A statement with a note at every node. -/
inductive Stmt (α : Type) where
  | expr (note : α) (value : Expr α)
  /-- Declaration: binds a name in the innermost scope, to nil without a value. -/
  | declare (note : α) (name : String) (value : Option (Expr α))
  | print (note : α) (arguments : List (Expr α))
  | block (note : α) (body : List (Stmt α))
  | cond (note : α) (condition : Expr α) (consequent : List (Stmt α)) (alternative : Option (Stmt α))
  | loop (note : α) (condition : Expr α) (body : List (Stmt α))
  | function (note : α) (name : String) (params : List String) (body : List (Stmt α))
  | ret (note : α) (value : Option (Expr α))
  | breakLoop (note : α)
  | continueLoop (note : α)

namespace Stmt

variable {α : Type}

/-- The note of the top node. -/
def note : Stmt α → α
  | expr a _ | declare a _ _ | print a _ | block a _ | cond a _ _ _ | loop a _ _
  | function a _ _ _ | ret a _ | breakLoop a | continueLoop a => a

/-- Whether a statement can follow `else` as it is: a block or another conditional. -/
def isBranch : Stmt α → Bool
  | block _ _ | cond _ _ _ _ => true
  | _ => false

end Stmt

/-- A program: its top-level statements. -/
structure Program (α : Type) where
  statements : List (Stmt α)

/-! ## Notes of parsed trees -/

/-- Where a node comes from: the place it is reported at, and the half-open range of indices of
    the tokens it was parsed from. -/
structure Origin where
  span : Span
  start : Nat
  stop : Nat
  deriving Repr, DecidableEq

/-- The origin of a node that was not parsed. -/
def Origin.none : Origin := ⟨.first, 0, 0⟩

end Scriptlet
