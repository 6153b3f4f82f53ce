/-
  The grammar with its edges open.

  The rules of the grammar recurse up to a bound, they come back from a level of nesting by taking
  one from a counter, and a name is read off the token list by an index.  What happens where the
  bound is reached, at a counter that is zero, and past the end of the list should not matter,
  because none of it should happen.  To be able to say so, the rules that have such an edge are
  given here once more, with what is done there as a parameter:

  1. **Edges** — `stop` is done where a bound is reached, `leave` to come back from a level, `token`
     to look up the next token.
  2. **Rules** — word for word those of the grammar.  Rules without an edge are used as they are.
  3. **The usual edges** (`Edges.usual`) — with them the rules are those of the grammar, whatever
     the bound.
  4. **Every rule** (`Rule`) — a name for each rule, as the parser runs it and with other edges.
-/
import Scriptlet.Parse.Grammar

namespace Scriptlet.Parse

/-- What is done at the edges of the grammar. -/
structure Edges where
  /-- Instead of going on where a bound is reached. -/
  stop : {β : Type} → Parse β
  /-- To come back from a level of nesting. -/
  leave : State → State
  /-- To look up the next token, whether there is one or not. -/
  token : State → Token

namespace Edges

variable {β : Type}

/-- The edges of the parser; without a next token there is an `eof`. -/
def usual : Edges where
  stop := tooDeep
  leave := State.leave
  token s := s.rest.headD ⟨.eof, "", s.lastSpan⟩

/-- Inside of its edges a rule does as usual: where there is a level to come back from, and where
    the position is one of the token list. -/
structure Fits (tokens : List Token) (e : Edges) : Prop where
  leave (s : State) (h : 0 < s.depth) : e.leave s = s.leave
  token (s : State) (h : s.position < tokens.length) (hrest : s.rest = tokens.drop s.position) :
    e.token s = tokens[s.position]

/-! ## Nesting and repetition -/

/-- Runs `p` one level deeper. -/
def nested (e : Edges) (p : Parse β) : Parse β := do
  enter
  always e.leave p

/-- One or more items with commas between them. -/
def commaList (e : Edges) (item : List β → Parse β) : Nat → List β → Parse (List β)
  | 0, _ => e.stop
  | n + 1, before => do
    let x ← item before
    skipNewlines
    if (← get).atSymbol .comma then
      advance
      skipNewlines
      commaList e item n (before ++ [x])
    else return before ++ [x]

/-- What follows an opening parenthesis. -/
def parenList (e : Edges) (bound : Nat) (item : List β → Parse β) : Parse (List β) := do
  Parse.skipNewlines
  let items ← if (← get).atSymbol .rightParen then pure [] else e.commaList item bound []
  expect .rightParen .rightParen
  return items

/-- Extends `left` by `link` as long as `more` holds. -/
def links (e : Edges) (more : State → Bool) (link : β → Parse β) : Nat → Bool → β → Parse β
  | 0, _, _ => e.stop
  | n + 1, chained, left => do
    if more (← get) then
      if chained then enter
      links e more link n true (← link left)
    else return left

/-- A first item and the links after it. -/
def chain (e : Edges) (bound : Nat) (first : Parse β) (more : State → Bool) (link : β → Parse β) :
    Parse β := do
  let depth := (← get).depth
  let left ← first
  let whole ← e.links more link bound false left
  modify fun s => { s with depth }
  return whole

/-! ## Expressions -/

/-- Operands with operators of level `p` between them. -/
def operations (e : Edges) (bound : Nat) (p : Precedence) (operand : Parse (Expr Origin)) :
    Parse (Expr Origin) := do
  let start := (← get).position
  e.chain bound operand (fun s => (s.operator? p).isSome) (operationLink p operand start)

/-- One argument list after a callee. -/
def callLink (e : Edges) (bound : Nat) (argument : Parse (Expr Origin)) (start : Nat)
    (callee : Expr Origin) : Parse (Expr Origin) := do
  let span := (← get).span
  advance
  let arguments ← e.parenList bound fun _ => argument
  return .call (← originFrom span start) callee arguments

/-- A primary expression and the argument lists after it. -/
def calls (e : Edges) (bound : Nat) (callee argument : Parse (Expr Origin)) :
    Parse (Expr Origin) := do
  let start := (← get).position
  e.chain bound callee (·.atSymbol .leftParen) (e.callLink bound argument start)

/-- The expression that the next token is.  Its kind is known, its text is looked up. -/
def leaf? (e : Edges) (s : State) : Option (Origin → Expr Origin) :=
  match s.kind? with
  | some .identifier => some fun a => .name a (e.token s).text
  | _ => s.rest.head?.bind Parse.leaf?

/-- A literal, a name, or an expression in parentheses. -/
def primary (e : Edges) (inner : Parse (Expr Origin)) : Parse (Expr Origin) := do
  let s ← get
  if s.atSymbol .leftParen then
    advance
    Parse.skipNewlines
    let x ← inner
    Parse.skipNewlines
    expect .rightParen .rightParen
    return x
  else
    match e.leaf? s with
    | none => unexpected .expression
    | some node =>
      advance
      return node (← originFrom s.span s.position)

/-- A unary operator with its operand, or the calls of a primary expression. -/
def unaryOr (e : Edges) (operand call : Parse (Expr Origin)) : Parse (Expr Origin) := do
  let s ← get
  match s.unaryOp? with
  | none => call
  | some op =>
    advance
    let x ← e.nested operand
    return .unary (← originFrom s.span s.position) op x

mutual

/-- An expression. -/
def expression (e : Edges) : Nat → Parse (Expr Origin)
  | 0 => e.stop
  | n + 1 => e.nested (assignment (level e n .or) (expression e n))

/-- An expression whose top binds at least as tightly as `p`, or is in parentheses. -/
def level (e : Edges) : Nat → Precedence → Parse (Expr Origin)
  | 0, _ => e.stop
  | n + 1, p => if .unary ≤ p then unary e n else e.operations n p (level e n p.tighter)

/-- An expression of the unary level. -/
def unary (e : Edges) : Nat → Parse (Expr Origin)
  | 0 => e.stop
  | n + 1 => e.unaryOr (unary e n) (e.calls n (e.primary (expression e n)) (expression e n))

end

/-! ## Statements -/

/-- Statements with separators between them. -/
def statements (e : Edges) (statement : Parse (Stmt Origin)) (inBlock : Bool) :
    Nat → Parse (List (Stmt Origin))
  | 0 => e.stop
  | n + 1 => do
    Parse.skipSeparators
    let s ← get
    if s.atEnd || (inBlock && s.atSymbol .rightBrace) then return []
    else
      let first ← statement
      if (← get).atSeparator inBlock then
        let others ← statements e statement inBlock n
        return first :: others
      else unexpected .separator

/-- Statements in braces, one level deeper. -/
def braced (e : Edges) (bound : Nat) (statement : Parse (Stmt Origin)) :
    Parse (List (Stmt Origin)) := do
  expect .leftBrace .leftBrace
  enter
  let body ← e.statements statement true bound
  modify e.leave
  expect .rightBrace .rightBrace
  return body

/-- A definition `fn name(parameters) block`. -/
def definition (e : Edges) (bound : Nat) (block : Parse (List (Stmt Origin))) :
    Parse (Origin → Stmt Origin) := do
  advance
  let f ← identifier .functionName
  expect .leftParen .leftParen
  let params ← e.parenList bound parameter
  let body ← inFunction block
  return fun a => .function a f params body

/-- A statement `print(arguments)`. -/
def printed (e : Edges) (bound : Nat) (expression : Parse (Expr Origin)) :
    Parse (Origin → Stmt Origin) := do
  advance
  expect .leftParen .parenAfterPrint
  let arguments ← e.parenList bound fun _ => expression
  return fun a => .print a arguments

/-- A statement other than `if`, still without its origin. -/
def simpleStatement (e : Edges) (bound : Nat) (expression : Parse (Expr Origin))
    (block : Parse (List (Stmt Origin))) : Parse (Origin → Stmt Origin) := do
  match (← get).kind? with
  | some (.keyword .letKw) => declaration expression
  | some (.keyword .fnKw) => e.definition bound block
  | some (.keyword .whileKw) => whileLoop expression block
  | some (.keyword .returnKw) => returned expression
  | some (.keyword .breakKw) => loopControl .breakKw .breakLoop
  | some (.keyword .continueKw) => loopControl .continueKw .continueLoop
  | some (.keyword .printKw) => e.printed bound expression
  | some (.symbol .leftBrace) =>
    let body ← block
    return fun a => .block a body
  | _ =>
    let x ← expression
    return fun a => .expr a x

/-- The branch after `else`: another conditional, one level deeper, or a block. -/
def elseBranch (e : Edges) (conditional : Parse (Stmt Origin))
    (block : Parse (List (Stmt Origin))) : Parse (Stmt Origin) := do
  let s ← get
  if s.atKeyword .ifKw then e.nested conditional
  else
    let body ← block
    return .block (← originFrom s.span s.position) body

mutual

/-- A statement. -/
def statement (e : Edges) : Nat → Parse (Stmt Origin)
  | 0 => e.stop
  | n + 1 => do
    let s ← get
    if s.atKeyword .ifKw then ifStatement e n
    else
      let node ← e.simpleStatement n (e.expression n) (block e n)
      return node (← originFrom s.span s.position)

/-- A conditional statement. -/
def ifStatement (e : Edges) : Nat → Parse (Stmt Origin)
  | 0 => e.stop
  | n + 1 =>
    conditional (e.expression n) (block e n) (e.elseBranch (ifStatement e n) (block e n))

/-- Statements in braces. -/
def block (e : Edges) : Nat → Parse (List (Stmt Origin))
  | 0 => e.stop
  | n + 1 => e.braced n (statement e n)

end

/-! ## The usual edges -/

/-- The bound of a list of items is reached alike. -/
theorem usual_commaList (item : List β → Parse β) (n : Nat) (before : List β) :
    usual.commaList item n before = Parse.commaList item n before := by
  induction n generalizing before with
  | zero => rfl
  | succ n ih => simp only [commaList, Parse.commaList, ih]

theorem usual_parenList (n : Nat) (item : List β → Parse β) :
    usual.parenList n item = Parse.parenList n item := by
  simp only [parenList, Parse.parenList, usual_commaList]

/-- The links of a chain; every one after the first goes a level deeper in both. -/
theorem usual_links (more : State → Bool) (link : β → Parse β) (n : Nat) (chained : Bool)
    (left : β) : usual.links more link n chained left = Parse.links more link n chained left := by
  induction n generalizing chained left with
  | zero => rfl
  | succ n ih =>
    have ih : usual.links more link n true = Parse.links more link n true := funext (ih true)
    simp only [links, Parse.links, ih]

/-- A chain is a first operand and its links. -/
theorem usual_chain (n : Nat) (first : Parse β) (more : State → Bool) (link : β → Parse β) :
    usual.chain n first more link = Parse.chain n first more link := by
  simp only [chain, Parse.chain, usual_links]

/-- The operations of a level are a chain. -/
theorem usual_operations (n : Nat) (p : Precedence) (operand : Parse (Expr Origin)) :
    usual.operations n p operand = Parse.operations n p operand := by
  simp only [operations, Parse.operations, usual_chain]

/-- Calls are a chain. -/
theorem usual_calls (n : Nat) (callee argument : Parse (Expr Origin)) :
    usual.calls n callee argument = Parse.calls n callee argument := by
  have hlink (start : Nat) : usual.callLink n argument start = Parse.callLink n argument start := by
    funext left
    simp only [callLink, Parse.callLink, usual_parenList]
  simp only [calls, Parse.calls, usual_chain, hlink]

/-- A token that is looked up by its index in the list. -/
theorem leaf?_eq {e : Edges} {s : State}
    (htoken : ∀ t ts, s.rest = t :: ts → e.token s = t) :
    e.leaf? s = s.rest.head?.bind Parse.leaf? := by
  unfold leaf? State.kind?
  cases hrest : s.rest with
  | nil => rfl
  | cons t ts =>
    rw [htoken t ts hrest, List.head?_cons, Option.map_some, Option.bind_some, Parse.leaf?]
    cases t.kind <;> rfl

/-- The usual way to look a token up gives the first one left. -/
theorem usual_primary (inner : Parse (Expr Origin)) :
    usual.primary inner = Parse.primary inner := by
  have hleaf : usual.leaf? = fun s => s.rest.head?.bind Parse.leaf? := funext fun s =>
    leaf?_eq fun t ts hrest => by
      show s.rest.headD _ = t
      rw [hrest]
      rfl
  unfold primary
  rw [hleaf]
  rfl

/-- With the usual edges, expressions are read as by the parser. -/
theorem usual_expressions (n : Nat) :
    usual.expression n = Parse.expression n ∧ usual.level n = Parse.level n ∧
      usual.unary n = Parse.unary n := by
  induction n with
  | zero => exact ⟨rfl, rfl, rfl⟩
  | succ n ih =>
    obtain ⟨hexpression, hlevel, hunary⟩ := ih
    refine ⟨?_, ?_, ?_⟩
    · rw [expression, Parse.expression, hexpression, hlevel]
      rfl
    · funext p
      rw [level, Parse.level, hlevel, hunary, usual_operations]
    · rw [unary, Parse.unary, hexpression, hunary, usual_primary, usual_calls]
      rfl

/-- Statements reach their bound alike. -/
theorem usual_statements (statement : Parse (Stmt Origin)) (inBlock : Bool) (n : Nat) :
    usual.statements statement inBlock n = Parse.statements statement inBlock n := by
  induction n with
  | zero => rfl
  | succ n ih => simp only [statements, Parse.statements, ih]

theorem usual_braced (n : Nat) (statement : Parse (Stmt Origin)) :
    usual.braced n statement = Parse.braced n statement := by
  simp only [braced, Parse.braced, usual_statements]
  rfl

/-- Parameters and body of a definition. -/
theorem usual_definition (n : Nat) (block : Parse (List (Stmt Origin))) :
    usual.definition n block = Parse.definition n block := by
  simp only [definition, Parse.definition, usual_parenList]

/-- The arguments of a `print`. -/
theorem usual_printed (n : Nat) (expression : Parse (Expr Origin)) :
    usual.printed n expression = Parse.printed n expression := by
  simp only [printed, Parse.printed, usual_parenList]

/-- Two of the simple statements have an edge, a definition and a `print`. -/
theorem usual_simpleStatement (n : Nat) (expression : Parse (Expr Origin))
    (block : Parse (List (Stmt Origin))) :
    usual.simpleStatement n expression block = Parse.simpleStatement n expression block := by
  unfold simpleStatement
  rw [usual_definition, usual_printed]
  rfl

/-- With the usual edges, statements are read as by the parser. -/
theorem usual_statement (n : Nat) :
    usual.statement n = Parse.statement n ∧ usual.ifStatement n = Parse.ifStatement n ∧
      usual.block n = Parse.block n := by
  induction n with
  | zero => exact ⟨rfl, rfl, rfl⟩
  | succ n ih =>
    obtain ⟨hstatement, hconditional, hblock⟩ := ih
    obtain ⟨hexpression, -, -⟩ := usual_expressions n
    refine ⟨?_, ?_, ?_⟩
    · rw [statement, Parse.statement, hexpression, hconditional, hblock, usual_simpleStatement]
    · rw [ifStatement, Parse.ifStatement, hexpression, hconditional, hblock]
      rfl
    · rw [block, Parse.block, hstatement, usual_braced]

end Edges

/-! ## Every rule -/

/-- The rules of the grammar, by what they give. -/
inductive Rule : Type → Type where
  | skipNewlines : Rule Unit
  | skipSeparators : Rule Unit
  | expect (x : Symbol) (expected : Expectation) : Rule Unit
  | identifier (expected : Expectation) : Rule String
  | expression : Rule (Expr Origin)
  | assignment : Rule (Expr Origin)
  | level (prec : Precedence) : Rule (Expr Origin)
  | unary : Rule (Expr Origin)
  | calls : Rule (Expr Origin)
  | primary : Rule (Expr Origin)
  | arguments : Rule (List (Expr Origin))
  | parameters : Rule (List String)
  | statements (inBlock : Bool) : Rule (List (Stmt Origin))
  | statement : Rule (Stmt Origin)
  | ifStatement : Rule (Stmt Origin)
  | block : Rule (List (Stmt Origin))
  | declaration : Rule (Origin → Stmt Origin)
  | definition : Rule (Origin → Stmt Origin)
  | whileLoop : Rule (Origin → Stmt Origin)
  | returned : Rule (Origin → Stmt Origin)
  | printed : Rule (Origin → Stmt Origin)

namespace Rule

/-- A rule as the parser runs it, up to a bound. -/
def parser (n : Nat) : Rule β → Parse β
  | skipNewlines => Parse.skipNewlines
  | skipSeparators => Parse.skipSeparators
  | expect x expected => Parse.expect x expected
  | identifier expected => Parse.identifier expected
  | expression => Parse.expression n
  | assignment => Parse.assignment (Parse.level n .or) (Parse.expression n)
  | level prec => Parse.level n prec
  | unary => Parse.unary n
  | calls => Parse.calls n (Parse.primary (Parse.expression n)) (Parse.expression n)
  | primary => Parse.primary (Parse.expression n)
  | arguments => parenList n fun _ => Parse.expression n
  | parameters => parenList n parameter
  | statements inBlock => Parse.statements (Parse.statement n) inBlock n
  | statement => Parse.statement n
  | ifStatement => Parse.ifStatement n
  | block => Parse.block n
  | declaration => Parse.declaration (Parse.expression n)
  | definition => Parse.definition n (Parse.block n)
  | whileLoop => Parse.whileLoop (Parse.expression n) (Parse.block n)
  | returned => Parse.returned (Parse.expression n)
  | printed => Parse.printed n (Parse.expression n)

/-- A rule with edges of its own. -/
def within (e : Edges) (n : Nat) : Rule β → Parse β
  | skipNewlines => Parse.skipNewlines
  | skipSeparators => Parse.skipSeparators
  | expect x expected => Parse.expect x expected
  | identifier expected => Parse.identifier expected
  | expression => e.expression n
  | assignment => Parse.assignment (e.level n .or) (e.expression n)
  | level prec => e.level n prec
  | unary => e.unary n
  | calls => e.calls n (e.primary (e.expression n)) (e.expression n)
  | primary => e.primary (e.expression n)
  | arguments => e.parenList n fun _ => e.expression n
  | parameters => e.parenList n parameter
  | statements inBlock => e.statements (e.statement n) inBlock n
  | statement => e.statement n
  | ifStatement => e.ifStatement n
  | block => e.block n
  | declaration => Parse.declaration (e.expression n)
  | definition => e.definition n (e.block n)
  | whileLoop => Parse.whileLoop (e.expression n) (e.block n)
  | returned => Parse.returned (e.expression n)
  | printed => e.printed n (e.expression n)

/-- With the usual edges the rules are those of the parser. -/
theorem within_usual (r : Rule β) (n : Nat) : r.within .usual n = r.parser n := by
  obtain ⟨hexpression, hlevel, hunary⟩ := Edges.usual_expressions n
  obtain ⟨hstatement, hif, hblock⟩ := Edges.usual_statement n
  cases r <;> simp only [within, parser, hexpression, hlevel, hunary, hstatement, hif, hblock,
    Edges.usual_calls, Edges.usual_primary, Edges.usual_parenList, Edges.usual_statements,
    Edges.usual_definition, Edges.usual_printed]

end Rule

end Scriptlet.Parse
