/-
  Layout: the canonical source text of a tree.

  One statement a line, blocks indented by four spaces, one space around infix operators, and only
  the parentheses that precedence asks for:

  * an operand that binds weaker than its operator is parenthesized;
  * so is a right operand that binds equally, since infix operators associate to the left;
  * a callee is parenthesized unless it is a name, a call or an unsigned literal.

  The text depends on the shape of the tree alone.
-/
import Scriptlet.Tree.Basic

namespace Scriptlet

variable {α : Type}

/-! ## Expressions -/

/-- The text between parentheses if `needed`, else the text itself. -/
def parenthesize (needed : Bool) (text : List Char) : List Char :=
  if needed then '(' :: text ++ [')'] else text

/-- Texts with a comma and a space between them. -/
def commaSeparated (texts : List (List Char)) : List Char := [',', ' '].intercalate texts

mutual

/-- The source text of an expression. -/
def Expr.layout : Expr α → List Char
  | .literal _ v => v.text.toList
  | .name _ x => x.toList
  | .unary _ op e =>
    op.symbol.chars ++ parenthesize (e.precedence < .unary) e.layout
  | .operation _ op l r =>
    parenthesize (l.precedence < op.precedence) l.layout
      ++ ' ' :: op.symbol.chars ++ ' ' :: parenthesize (r.precedence ≤ op.precedence) r.layout
  | .assign _ x e => x.toList ++ ' ' :: '=' :: ' ' :: e.layout
  | .call _ f args =>
    parenthesize (f.precedence < .call) f.layout
      ++ '(' :: commaSeparated (Expr.layouts args) ++ [')']

/-- The source texts of several expressions. -/
def Expr.layouts : List (Expr α) → List (List Char)
  | [] => []
  | e :: es => e.layout :: Expr.layouts es

end

theorem Expr.layouts_eq_map (es : List (Expr α)) : Expr.layouts es = es.map Expr.layout := by
  induction es with
  | nil => rfl
  | cons e es ih => rw [Expr.layouts, ih, List.map_cons]

/-! ## Statements -/

/-- The blanks in front of a statement `depth` blocks deep. -/
def indentation (depth : Nat) : List Char := List.replicate (4 * depth) ' '

/-- Braces around lines that are already laid out; the closing brace stands `depth` deep. -/
def braces (depth : Nat) (lines : List Char) : List Char :=
  '\x7b' :: '\n' :: lines ++ indentation depth ++ ['\x7d']

/-- One line with its indentation and line feed. -/
def lineAt (depth : Nat) (text : List Char) : List Char := indentation depth ++ text ++ ['\n']

/-- A keyword and a space. -/
def Keyword.lead (k : Keyword) : List Char := k.chars ++ [' ']

/-- The value of a declaration, if it has one. -/
def initializer : Option (Expr α) → List Char
  | none => []
  | some e => ' ' :: '=' :: ' ' :: e.layout

/-- The value of a `return`, if it has one. -/
def returnValue : Option (Expr α) → List Char
  | none => []
  | some e => ' ' :: e.layout

/-- Arguments in parentheses. -/
def argumentList (args : List (Expr α)) : List Char :=
  '(' :: commaSeparated (Expr.layouts args) ++ [')']

mutual

/-- The source text of a statement `depth` blocks deep, without the indentation of its first line
    and without the line feed at its end. -/
def Stmt.layout (depth : Nat) : Stmt α → List Char
  | .expr _ e => e.layout
  | .declare _ x e => Keyword.letKw.lead ++ x.toList ++ initializer e
  | .print _ args => Keyword.printKw.chars ++ argumentList args
  | .block _ body => braces depth (Stmt.lines (depth + 1) body)
  | .cond _ c t none =>
    Keyword.ifKw.lead ++ c.layout ++ ' ' :: braces depth (Stmt.lines (depth + 1) t)
  | .cond _ c t (some branch) =>
    Keyword.ifKw.lead ++ c.layout ++ ' ' :: braces depth (Stmt.lines (depth + 1) t)
      ++ ' ' :: Keyword.elseKw.lead
      ++ if branch.isBranch then branch.layout depth
         else braces depth (lineAt (depth + 1) (branch.layout (depth + 1)))
  | .loop _ c body =>
    Keyword.whileKw.lead ++ c.layout ++ ' ' :: braces depth (Stmt.lines (depth + 1) body)
  | .function _ f params body =>
    Keyword.fnKw.lead ++ f.toList ++ '(' :: commaSeparated (params.map String.toList)
      ++ ')' :: ' ' :: braces depth (Stmt.lines (depth + 1) body)
  | .ret _ e => Keyword.returnKw.chars ++ returnValue e
  | .breakLoop _ => Keyword.breakKw.chars
  | .continueLoop _ => Keyword.continueKw.chars

/-- Statements one below the other, `depth` blocks deep. -/
def Stmt.lines (depth : Nat) : List (Stmt α) → List Char
  | [] => []
  | s :: rest => lineAt depth (s.layout depth) ++ Stmt.lines depth rest

end

/-- The source text of a program: empty, or ending with a line feed. -/
def Program.format (p : Program α) : String := String.ofList (Stmt.lines 0 p.statements)

/-- The source text of an expression, as a string. -/
def Expr.format (e : Expr α) : String := String.ofList e.layout

end Scriptlet
