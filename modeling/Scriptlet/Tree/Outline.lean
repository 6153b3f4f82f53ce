/-
  Outline: a program tree as an indented list of nested parentheses.

  Every node opens a line with its heading, its children follow on lines of their own, one level
  deeper, and the closing parentheses are gathered behind the last of them.  Notes are left out, so
  the outline shows the shape of a tree.
-/
import Scriptlet.Tree.Basic

namespace Scriptlet

variable {α : Type}

/-! ## Outlines -/

/-- A heading with the outlines of the parts below it. -/
inductive Outline where
  | node (heading : String) (parts : List Outline)

namespace Outline

/-- An outline without parts. -/
def leaf (heading : String) : Outline := node heading []

mutual

/-- The lines of an outline `depth` levels deep, the last one without a line feed, and then
    `rest`.  Carrying the rest along keeps the work linear in the text. -/
def write (depth : Nat) : Outline → List Char → List Char
  | node heading parts, rest =>
    List.replicate (2 * depth) ' ' ++ '(' :: heading.toList
      ++ writeParts (depth + 1) parts (')' :: rest)

/-- The lines of the parts, each with a line feed in front, and then `rest`. -/
def writeParts (depth : Nat) : List Outline → List Char → List Char
  | [], rest => rest
  | part :: parts, rest => '\n' :: part.write depth (writeParts depth parts rest)

end

/-- The text of an outline. -/
def text (o : Outline) : String := String.ofList (o.write 0 [])

end Outline

/-! ## The outline of a tree -/

/-- The heading of a literal: its type and source form. -/
def Literal.heading : Literal → String
  | .nil => "nil"
  | .bool b => s!"bool {Literal.boolText b}"
  | .integer n => s!"int {Integer.text n}"
  | .float x => s!"float {Decimal.floatText x}"
  | .str s => s!"string {(Literal.str s).text}"

/-- The word for a family of infix operators. -/
def Operator.family : Operator → String
  | .logical _ => "logical"
  | _ => "binary"

mutual

/-- The outline of an expression. -/
def Expr.outline : Expr α → Outline
  | .literal _ v => .leaf v.heading
  | .name _ x => .leaf s!"var {x}"
  | .unary _ op e => .node s!"unary {op.symbol.text}" [e.outline]
  | .operation _ op l r => .node s!"{op.family} {op.symbol.text}" [l.outline, r.outline]
  | .assign _ x e => .node s!"assign {x}" [e.outline]
  | .call _ f args => .node "call" [f.outline, .node "args" (Expr.outlines args)]

/-- The outlines of several expressions. -/
def Expr.outlines : List (Expr α) → List Outline
  | [] => []
  | e :: es => e.outline :: Expr.outlines es

end

mutual

/-- The outline of a statement. -/
def Stmt.outline : Stmt α → Outline
  | .expr _ e => e.outline
  | .declare _ x none => .leaf s!"let {x}"
  | .declare _ x (some e) => .node s!"let {x}" [e.outline]
  | .print _ args => .node "print" (Expr.outlines args)
  | .block _ body => .node "block" (Stmt.outlines body)
  | .cond _ c t none => .node "if" [c.outline, .node "then" (Stmt.outlines t)]
  | .cond _ c t (some branch) =>
    .node "if" [c.outline, .node "then" (Stmt.outlines t), .node "else" [branch.outline]]
  | .loop _ c body => .node "while" [c.outline, .node "body" (Stmt.outlines body)]
  | .function _ f params body =>
    .node s!"fn {f}"
      [.leaf (String.join ("params" :: params.map (" " ++ ·))), .node "body" (Stmt.outlines body)]
  | .ret _ none => .leaf "return"
  | .ret _ (some e) => .node "return" [e.outline]
  | .breakLoop _ => .leaf "break"
  | .continueLoop _ => .leaf "continue"

/-- The outlines of several statements. -/
def Stmt.outlines : List (Stmt α) → List Outline
  | [] => []
  | s :: rest => s.outline :: Stmt.outlines rest

end

/-- The outline of a program. -/
def Program.outline (p : Program α) : Outline := .node "program" (Stmt.outlines p.statements)

end Scriptlet
