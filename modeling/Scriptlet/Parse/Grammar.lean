/-
  The grammar: token lists to program trees.

      program     = statements
      statement   = let | fn | if | while | return | break | continue | print | block | expression
      expression  = name "=" expression | infix levels, each left-associative
      levels      = "||" < "&&" < "== !=" < "< <= > >=" < "+ -" < "* / %" < unary < call

  Statements are separated by newlines or semicolons.  Newlines may also stand after an infix
  operator or `=`, after an opening parenthesis, around commas, before a closing parenthesis, and
  between the brace that closes an `if` and its `else`.  Parentheses leave no node behind.

  Rules that refer to one another are tied together at the end by recursion on a bound.  Between
  two tokens at most fourteen rules are entered, so sixteen for every token are enough; running out
  of the bound would be reported as nesting too deep.
-/
import Scriptlet.Parse.Basic
import Scriptlet.Tree.Basic

namespace Scriptlet

/-! ## Levels -/

namespace Precedence

/-- The level that the operands of a level are read at; `call` is the tightest. -/
def tighter : Precedence → Precedence
  | assignment => or
  | or => and
  | and => equality
  | equality => comparison
  | comparison => term
  | term => factor
  | factor => unary
  | unary => call
  | call => call

/-- The infix operator that a symbol spells at a level. -/
def operator? : Precedence → Symbol → Option Operator
  | or, .orOr => some (.logical .or)
  | and, .andAnd => some (.logical .and)
  | equality, .equalEqual => some (.binary (.equality .equal))
  | equality, .bangEqual => some (.binary (.equality .notEqual))
  | comparison, .less => some (.binary (.comparison .less))
  | comparison, .lessEqual => some (.binary (.comparison .lessEqual))
  | comparison, .greater => some (.binary (.comparison .greater))
  | comparison, .greaterEqual => some (.binary (.comparison .greaterEqual))
  | term, .plus => some (.binary (.arithmetic .add))
  | term, .minus => some (.binary (.arithmetic .subtract))
  | factor, .star => some (.binary (.arithmetic .multiply))
  | factor, .slash => some (.binary (.arithmetic .divide))
  | factor, .percent => some (.binary (.arithmetic .remainder))
  | _, _ => none

end Precedence

/-- The unary operator that a symbol spells. -/
def UnaryOp.ofSymbol? : Symbol → Option UnaryOp
  | .minus => some negate
  | .bang => some not
  | _ => none

namespace Parse

/-- The origin of a node that starts at the token `start` and ends here. -/
def originFrom (span : Span) (start : Nat) : Parse Origin := do
  return ⟨span, start, (← get).position⟩

/-! ## Expressions -/

/-- The name that `e` is, if nothing but that name was read since the token `start`. -/
def bareName? (e : Expr Origin) (start stop : Nat) : Option String :=
  match e with
  | .name origin x => if origin.start = start ∧ origin.stop = stop then some x else none
  | _ => none

/-- An operand, or an assignment to it if it is a bare name. -/
def assignment (operand value : Parse (Expr Origin)) : Parse (Expr Origin) := do
  let start := (← get).position
  let target ← operand
  let s ← get
  if s.atSymbol .assign then
    match bareName? target start s.position with
    | none => throw ⟨.invalidAssignmentTarget, target.note.span⟩
    | some x =>
      advance
      skipNewlines
      let e ← value
      return .assign (← originFrom s.span start) x e
  else return target

/-- The infix operator of level `p` that comes next. -/
def State.operator? (s : State) (p : Precedence) : Option Operator :=
  match s.kind? with
  | some (.symbol x) => p.operator? x
  | _ => none

/-- The unary operator that comes next. -/
def State.unaryOp? (s : State) : Option UnaryOp :=
  match s.kind? with
  | some (.symbol x) => UnaryOp.ofSymbol? x
  | _ => none

/-- One infix operator of level `p` and its right operand. -/
def operationLink (p : Precedence) (operand : Parse (Expr Origin)) (start : Nat)
    (left : Expr Origin) : Parse (Expr Origin) := do
  let s ← get
  match s.operator? p with
  | none => return left
  | some op =>
    advance
    skipNewlines
    let right ← operand
    return .operation (← originFrom s.span start) op left right

/-- Operands with operators of level `p` between them. -/
def operations (bound : Nat) (p : Precedence) (operand : Parse (Expr Origin)) :
    Parse (Expr Origin) := do
  let start := (← get).position
  chain bound operand (fun s => (s.operator? p).isSome) (operationLink p operand start)

/-- One argument list after a callee. -/
def callLink (bound : Nat) (argument : Parse (Expr Origin)) (start : Nat) (callee : Expr Origin) :
    Parse (Expr Origin) := do
  let span := (← get).span
  advance
  let arguments ← parenList bound fun _ => argument
  return .call (← originFrom span start) callee arguments

/-- A primary expression and the argument lists after it. -/
def calls (bound : Nat) (callee argument : Parse (Expr Origin)) : Parse (Expr Origin) := do
  let start := (← get).position
  chain bound callee (·.atSymbol .leftParen) (callLink bound argument start)

/-- A unary operator with its operand, or the calls of a primary expression. -/
def unaryOr (operand call : Parse (Expr Origin)) : Parse (Expr Origin) := do
  let s ← get
  match s.unaryOp? with
  | none => call
  | some op =>
    advance
    let e ← nested operand
    return .unary (← originFrom s.span s.position) op e

/-- The expression that a single token is. -/
def leaf? (t : Token) : Option (Origin → Expr Origin) :=
  match t.kind with
  | .integer n => some fun a => .literal a (.integer n)
  | .float x => some fun a => .literal a (.float x)
  | .str s => some fun a => .literal a (.str s)
  | .keyword .trueKw => some fun a => .literal a (.bool true)
  | .keyword .falseKw => some fun a => .literal a (.bool false)
  | .keyword .nilKw => some fun a => .literal a .nil
  | .identifier => some fun a => .name a t.text
  | _ => none

/-- A literal, a name, or an expression in parentheses. -/
def primary (inner : Parse (Expr Origin)) : Parse (Expr Origin) := do
  let s ← get
  if s.atSymbol .leftParen then
    advance
    skipNewlines
    let e ← inner
    skipNewlines
    expect .rightParen .rightParen
    return e
  else
    match s.rest.head?.bind leaf? with
    | none => unexpected .expression
    | some node =>
      advance
      return node (← originFrom s.span s.position)

mutual

/-- An expression. -/
def expression : Nat → Parse (Expr Origin)
  | 0 => tooDeep
  | n + 1 => nested (assignment (level n .or) (expression n))

/-- An expression whose top binds at least as tightly as `p`, or is in parentheses. -/
def level : Nat → Precedence → Parse (Expr Origin)
  | 0, _ => tooDeep
  | n + 1, p => if .unary ≤ p then unary n else operations n p (level n p.tighter)

/-- An expression of the unary level. -/
def unary : Nat → Parse (Expr Origin)
  | 0 => tooDeep
  | n + 1 => unaryOr (unary n) (calls n (primary (expression n)) (expression n))

end

/-! ## Statements -/

/-- Whether a statement may end here. -/
def State.atSeparator (s : State) (inBlock : Bool) : Bool :=
  match s.kind? with
  | none | some .eof | some .newline | some (.symbol .semicolon) => true
  | some (.symbol .rightBrace) => inBlock
  | _ => false

/-- Statements with separators between them, up to the brace that closes a block or the end. -/
def statements (statement : Parse (Stmt Origin)) (inBlock : Bool) : Nat → Parse (List (Stmt Origin))
  | 0 => tooDeep
  | n + 1 => do
    skipSeparators
    let s ← get
    if s.atEnd || (inBlock && s.atSymbol .rightBrace) then return []
    else
      let first ← statement
      if (← get).atSeparator inBlock then
        let others ← statements statement inBlock n
        return first :: others
      else unexpected .separator

/-- Statements in braces, one level deeper. -/
def braced (bound : Nat) (statement : Parse (Stmt Origin)) : Parse (List (Stmt Origin)) := do
  expect .leftBrace .leftBrace
  enter
  let body ← statements statement true bound
  modify State.leave
  expect .rightBrace .rightBrace
  return body

/-- A declaration `let name`, or `let name = value`. -/
def declaration (expression : Parse (Expr Origin)) : Parse (Origin → Stmt Origin) := do
  advance
  let x ← identifier .variableName
  if (← get).atSymbol .assign then
    advance
    skipNewlines
    let e ← expression
    return fun a => .declare a x (some e)
  else return fun a => .declare a x none

/-- A parameter that is not among those before it. -/
def parameter (before : List String) : Parse String := do
  let span := (← get).span
  let x ← identifier .parameterName
  if x ∈ before then throw ⟨.duplicateParameter x, span⟩
  else return x

/-- A definition `fn name(parameters) block`. -/
def definition (bound : Nat) (block : Parse (List (Stmt Origin))) :
    Parse (Origin → Stmt Origin) := do
  advance
  let f ← identifier .functionName
  expect .leftParen .leftParen
  let params ← parenList bound parameter
  let body ← inFunction block
  return fun a => .function a f params body

/-- A loop `while condition block`. -/
def whileLoop (expression : Parse (Expr Origin)) (block : Parse (List (Stmt Origin))) :
    Parse (Origin → Stmt Origin) := do
  advance
  let c ← expression
  let body ← inLoop block
  return fun a => .loop a c body

/-- A `return`, with a value unless the statement ends. -/
def returned (expression : Parse (Expr Origin)) : Parse (Origin → Stmt Origin) := do
  let s ← get
  if s.functions = 0 then throw ⟨.returnOutsideFunction, s.span⟩
  else
    advance
    if (← get).atSeparator true then return fun a => .ret a none
    else
      let e ← expression
      return fun a => .ret a (some e)

/-- A statement `print(arguments)`. -/
def printed (bound : Nat) (expression : Parse (Expr Origin)) : Parse (Origin → Stmt Origin) := do
  advance
  expect .leftParen .parenAfterPrint
  let arguments ← parenList bound fun _ => expression
  return fun a => .print a arguments

/-- A `break` or `continue`, inside a loop. -/
def loopControl (keyword : Keyword) (node : Origin → Stmt Origin) :
    Parse (Origin → Stmt Origin) := do
  let s ← get
  if s.loops = 0 then throw ⟨.loopControlOutsideLoop keyword, s.span⟩
  else
    advance
    return node

/-- A statement other than `if`, still without its origin. -/
def simpleStatement (bound : Nat) (expression : Parse (Expr Origin))
    (block : Parse (List (Stmt Origin))) : Parse (Origin → Stmt Origin) := do
  match (← get).kind? with
  | some (.keyword .letKw) => declaration expression
  | some (.keyword .fnKw) => definition bound block
  | some (.keyword .whileKw) => whileLoop expression block
  | some (.keyword .returnKw) => returned expression
  | some (.keyword .breakKw) => loopControl .breakKw .breakLoop
  | some (.keyword .continueKw) => loopControl .continueKw .continueLoop
  | some (.keyword .printKw) => printed bound expression
  | some (.symbol .leftBrace) =>
    let body ← block
    return fun a => .block a body
  | _ =>
    let e ← expression
    return fun a => .expr a e

/-- The branch after `else`: another conditional, one level deeper, or a block. -/
def elseBranch (conditional : Parse (Stmt Origin)) (block : Parse (List (Stmt Origin))) :
    Parse (Stmt Origin) := do
  let s ← get
  if s.atKeyword .ifKw then nested conditional
  else
    let body ← block
    return .block (← originFrom s.span s.position) body

/-- A conditional `if condition block`, and `else` with its branch, perhaps after newlines. -/
def conditional (expression : Parse (Expr Origin)) (block : Parse (List (Stmt Origin)))
    (branch : Parse (Stmt Origin)) : Parse (Stmt Origin) := do
  let s ← get
  advance
  let c ← expression
  let consequent ← block
  let ahead := (← get).skipNewlines
  let alternative ←
    if ahead.atKeyword .elseKw then do
      set ahead
      advance
      some <$> branch
    else pure none
  return .cond (← originFrom s.span s.position) c consequent alternative

mutual

/-- A statement. -/
def statement : Nat → Parse (Stmt Origin)
  | 0 => tooDeep
  | n + 1 => do
    let s ← get
    if s.atKeyword .ifKw then ifStatement n
    else
      let node ← simpleStatement n (expression n) (block n)
      return node (← originFrom s.span s.position)

/-- A conditional statement. -/
def ifStatement : Nat → Parse (Stmt Origin)
  | 0 => tooDeep
  | n + 1 => conditional (expression n) (block n) (elseBranch (ifStatement n) (block n))

/-- Statements in braces. -/
def block : Nat → Parse (List (Stmt Origin))
  | 0 => tooDeep
  | n + 1 => braced n (statement n)

end

/-- The bound for a list of tokens. -/
def bound (tokens : List Token) : Nat := 16 * (tokens.length + 1)

end Parse

/-- The program that a token list spells. -/
def parse (tokens : List Token) : Except ParseError (Program Origin) :=
  let n := Parse.bound tokens
  match Parse.statements (Parse.statement n) false n (.initial tokens) with
  | .ok statements _ => .ok ⟨statements⟩
  | .error e _ => .error e

end Scriptlet
