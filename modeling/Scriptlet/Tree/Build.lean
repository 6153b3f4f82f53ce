/-
  Building trees by hand.

  Each function makes one node with the empty origin `Origin.none`.  The layout of a built tree is
  source text for a tree of the same shape.
-/
import Scriptlet.Tree.Basic

namespace Scriptlet

namespace Expr

/-- A literal without a source. -/
def ofLiteral (v : Literal) : Expr Origin := literal .none v

/-- A name without a source. -/
def ofName (x : String) : Expr Origin := name .none x

/-- A unary operation. -/
def ofUnary (op : UnaryOp) (operand : Expr Origin) : Expr Origin := unary .none op operand

/-- An infix operation. -/
def ofOperation (op : Operator) (left right : Expr Origin) : Expr Origin :=
  operation .none op left right

/-- An assignment `x = value`. -/
def ofAssign (x : String) (value : Expr Origin) : Expr Origin := assign .none x value

/-- A call of any expression. -/
def ofCall (callee : Expr Origin) (arguments : List (Expr Origin)) : Expr Origin :=
  call .none callee arguments

/-- A call of a named function. -/
def ofNamedCall (f : String) (arguments : List (Expr Origin)) : Expr Origin :=
  ofCall (ofName f) arguments

end Expr

namespace Stmt

/-- An expression as a statement. -/
def ofExpr (e : Expr Origin) : Stmt Origin := expr .none e

/-- A declaration `let x = value`, or `let x`. -/
def ofDeclare (x : String) (value : Option (Expr Origin)) : Stmt Origin := declare .none x value

/-- A statement `print(arguments)`. -/
def ofPrint (arguments : List (Expr Origin)) : Stmt Origin := print .none arguments

/-- A block of statements. -/
def ofBlock (body : List (Stmt Origin)) : Stmt Origin := block .none body

/-- A conditional without `else`. -/
def ofCond (condition : Expr Origin) (consequent : List (Stmt Origin)) : Stmt Origin :=
  cond .none condition consequent none

/-- Gives a conditional an `else` branch.  A branch that is neither a block nor a conditional is
    put into a block; a statement that is no conditional stays as it is. -/
def otherwise (s branch : Stmt Origin) : Stmt Origin :=
  match s with
  | cond a c t _ => cond a c t (some (if branch.isBranch then branch else ofBlock [branch]))
  | s => s

/-- A loop. -/
def ofLoop (condition : Expr Origin) (body : List (Stmt Origin)) : Stmt Origin :=
  loop .none condition body

/-- A function definition. -/
def ofFunction (f : String) (params : List String) (body : List (Stmt Origin)) : Stmt Origin :=
  function .none f params body

/-- A statement `return value`, or `return`. -/
def ofReturn (value : Option (Expr Origin)) : Stmt Origin := ret .none value

end Stmt

end Scriptlet
