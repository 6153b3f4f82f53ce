/-
  Parsing: the tokens still to read, and the steps every rule of the grammar is made of.

  A parser is a computation on a `Parse.State` that may fail with a `ParseError`.  The state holds
  the rest of the token list and three counters: how deeply the construct at hand is nested, how
  many functions enclose it, and how many loops of the innermost function do.

  The end of the token list and an `eof` token both end the input.  An error there is reported at
  the `eof` token, or at the last token of a list that has none.
-/
import Scriptlet.Cleanup
import Scriptlet.Token.Basic

namespace Scriptlet

/-! ## Errors -/

/-- What a rule of the grammar asks for next. -/
inductive Expectation where
  | separator | expression | variableName | functionName | parameterName
  | leftParen | rightParen | leftBrace | rightBrace | parenAfterPrint
  deriving Repr, DecidableEq

/-- The wording of an expectation. -/
def Expectation.text : Expectation → String
  | separator => "newline or ';'"
  | expression => "expression"
  | variableName => "variable name"
  | functionName => "function name"
  | parameterName => "parameter name"
  | leftParen => "'('"
  | rightParen => "')'"
  | leftBrace => "'\x7b'"
  | rightBrace => "'\x7d'"
  | parenAfterPrint => "'(' after 'print'"

/-- Deepest nesting of blocks and expressions that is accepted. -/
def maxNesting : Nat := 100

/-- Why a token list is no program. -/
inductive ParseFault where
  /-- A token that does not fit. -/
  | unexpectedToken (found : String) (expected : Expectation)
  /-- The input ends inside a construct. -/
  | unexpectedEnd (expected : Expectation)
  /-- The left side of `=` is not a bare name. -/
  | invalidAssignmentTarget
  /-- A `return` outside of every function. -/
  | returnOutsideFunction
  /-- A `break` or `continue` outside of every loop of the function. -/
  | loopControlOutsideLoop (keyword : Keyword)
  /-- Two parameters of one function have the same name. -/
  | duplicateParameter (name : String)
  /-- Blocks or expressions nested deeper than `maxNesting`. -/
  | nestingTooDeep
  deriving Repr, DecidableEq

/-- The wording of a fault. -/
def ParseFault.message : ParseFault → String
  | unexpectedToken found expected => s!"expected {expected.text}, got '{found}'"
  | unexpectedEnd expected => s!"expected {expected.text}, got end of input"
  | invalidAssignmentTarget => "invalid assignment target"
  | returnOutsideFunction => "'return' outside of a function"
  | loopControlOutsideLoop keyword => s!"'{keyword.text}' outside of a loop"
  | duplicateParameter name => s!"duplicate parameter '{name}'"
  | nestingTooDeep => s!"nesting deeper than {maxNesting} levels"

/-- A fault and the place it is reported at. -/
structure ParseError where
  cause : ParseFault
  span : Span
  deriving Repr, DecidableEq

/-- The wording of an error, with its place. -/
def ParseError.message (e : ParseError) : String := s!"{e.cause.message} {e.span.phrase}"

namespace Parse

/-! ## The state -/

/-- Where parsing stands. -/
structure State where
  /-- Tokens not yet read. -/
  rest : List Token
  /-- Number of tokens read. -/
  position : Nat
  /-- Place of the last token read. -/
  lastSpan : Span
  /-- Levels of nesting around the construct at hand. -/
  depth : Nat
  /-- Functions around the construct at hand. -/
  functions : Nat
  /-- Loops around the construct at hand, inside the innermost function. -/
  loops : Nat

namespace State

/-- The state before the first token. -/
def initial (tokens : List Token) : State := ⟨tokens, 0, .first, 0, 0, 0⟩

/-- The kind of the next token. -/
def kind? (s : State) : Option TokenKind := s.rest.head?.map Token.kind

/-- Whether the next token is the symbol `x`. -/
def atSymbol (s : State) (x : Symbol) : Bool := s.kind? == some (.symbol x)

/-- Whether the next token is the keyword `k`. -/
def atKeyword (s : State) (k : Keyword) : Bool := s.kind? == some (.keyword k)

/-- Whether the input ends here. -/
def atEnd (s : State) : Bool :=
  match s.kind? with
  | none | some .eof => true
  | _ => false

/-- The place of the next token, or of the last one of the list. -/
def span (s : State) : Span :=
  match s.rest with
  | t :: _ => t.span
  | [] => s.lastSpan

/-- The state after the first `n` tokens that remain. -/
def drop (s : State) (n : Nat) : State :=
  { s with
    rest := s.rest.drop n
    position := s.position + (s.rest.take n).length
    lastSpan := ((s.rest.take n).getLast?.map Token.span).getD s.lastSpan }

/-- The state after the next token. -/
def next (s : State) : State := s.drop 1

/-- The state after the longest run of tokens of the kinds `p` at the front. -/
def skipWhile (s : State) (p : TokenKind → Bool) : State :=
  s.drop (s.rest.takeWhile fun t => p t.kind).length

/-- The state after all newlines at the front. -/
def skipNewlines (s : State) : State := s.skipWhile (· == .newline)

/-- The state after all newlines and semicolons at the front. -/
def skipSeparators (s : State) : State :=
  s.skipWhile fun k => k == .newline || k == .symbol .semicolon

/-- The error for a next token that does not fit. -/
def unexpected (s : State) (expected : Expectation) : ParseError :=
  match s.rest with
  | [] => ⟨.unexpectedEnd expected, s.span⟩
  | t :: _ =>
    match t.kind with
    | .eof => ⟨.unexpectedEnd expected, t.span⟩
    | .newline => ⟨.unexpectedToken "newline" expected, t.span⟩
    | _ => ⟨.unexpectedToken t.text expected, t.span⟩

end State

end Parse

/-- A parser for a `β`. -/
abbrev Parse (β : Type) := EStateM ParseError Parse.State β

namespace Parse

variable {β : Type}

/-! ## Single steps -/

/-- Reads the next token. -/
def advance : Parse Unit := modify State.next

/-- Reads newlines. -/
def skipNewlines : Parse Unit := modify State.skipNewlines

/-- Reads newlines and semicolons. -/
def skipSeparators : Parse Unit := modify State.skipSeparators

/-- Fails because the next token does not fit. -/
def unexpected (expected : Expectation) : Parse β := do
  throw ((← get).unexpected expected)

/-- Reads the symbol `x`. -/
def expect (x : Symbol) (expected : Expectation) : Parse Unit := do
  if (← get).atSymbol x then advance else unexpected expected

/-- Reads an identifier. -/
def identifier (expected : Expectation) : Parse String := do
  match (← get).rest with
  | t :: _ => if t.kind = .identifier then advance; return t.text else unexpected expected
  | [] => unexpected expected

/-! ## Nesting -/

/-- Fails because the nesting limit is reached. -/
def tooDeep : Parse β := do
  throw ⟨.nestingTooDeep, (← get).span⟩

/-- Goes one level deeper, up to `maxNesting`. -/
def enter : Parse Unit := do
  if (← get).depth < maxNesting then modify fun s => { s with depth := s.depth + 1 }
  else tooDeep

/-- Comes back from one level. -/
def State.leave (s : State) : State := { s with depth := s.depth - 1 }

/-- Runs `p` one level deeper. -/
def nested (p : Parse β) : Parse β := do
  enter
  always State.leave p

/-- Runs `p` inside one more function, whose body is inside no loop yet. -/
def inFunction (p : Parse β) : Parse β := do
  let loops := (← get).loops
  modify fun s => { s with functions := s.functions + 1, loops := 0 }
  always (fun s => { s with functions := s.functions - 1, loops }) p

/-- Runs `p` inside one more loop. -/
def inLoop (p : Parse β) : Parse β := do
  modify fun s => { s with loops := s.loops + 1 }
  always (fun s => { s with loops := s.loops - 1 }) p

/-! ## Repetition

  Every repetition takes a bound on its length; more tokens than the bound are treated as nested
  too deep. -/

/-- One or more items with commas between them; newlines may stand on either side of a comma.
    `item` is given the items before it. -/
def commaList (item : List β → Parse β) : Nat → List β → Parse (List β)
  | 0, _ => tooDeep
  | n + 1, before => do
    let x ← item before
    skipNewlines
    if (← get).atSymbol .comma then
      advance
      skipNewlines
      commaList item n (before ++ [x])
    else return before ++ [x]

/-- What follows an opening parenthesis: `)`, or items with commas between them and then `)`.
    Newlines may stand around each item. -/
def parenList (bound : Nat) (item : List β → Parse β) : Parse (List β) := do
  skipNewlines
  let items ← if (← get).atSymbol .rightParen then pure [] else commaList item bound []
  expect .rightParen .rightParen
  return items

/-- Extends `left` by `link` as long as `more` holds.  Every link after the first (`chained`) is
    one level deeper. -/
def links (more : State → Bool) (link : β → Parse β) : Nat → Bool → β → Parse β
  | 0, _, _ => tooDeep
  | n + 1, chained, left => do
    if more (← get) then
      if chained then enter
      links more link n true (← link left)
    else return left

/-- A first item and the links after it; afterwards the nesting is what it was before. -/
def chain (bound : Nat) (first : Parse β) (more : State → Bool) (link : β → Parse β) :
    Parse β := do
  let depth := (← get).depth
  let left ← first
  let whole ← links more link bound false left
  modify fun s => { s with depth }
  return whole

end Parse

end Scriptlet
