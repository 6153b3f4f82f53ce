/-
  Tokens: the words a source text is made of.

  A token has a kind, the text it was written with and the place it starts at.  Literals carry the
  value they denote; an identifier is known by its text; line ends are tokens because they separate
  statements; `eof` closes every token list that comes from a text.
-/
import Scriptlet.Number.Binary64
import Scriptlet.Span

namespace Scriptlet

/-! ## Keywords -/

/-- Reserved words. -/
inductive Keyword where
  | letKw | fnKw | returnKw | ifKw | elseKw | whileKw | breakKw | continueKw | printKw
  | trueKw | falseKw | nilKw
  deriving Repr, DecidableEq

namespace Keyword

/-- The characters of a keyword. -/
def chars : Keyword → List Char
  | letKw => ['l', 'e', 't']
  | fnKw => ['f', 'n']
  | returnKw => ['r', 'e', 't', 'u', 'r', 'n']
  | ifKw => ['i', 'f']
  | elseKw => ['e', 'l', 's', 'e']
  | whileKw => ['w', 'h', 'i', 'l', 'e']
  | breakKw => ['b', 'r', 'e', 'a', 'k']
  | continueKw => ['c', 'o', 'n', 't', 'i', 'n', 'u', 'e']
  | printKw => ['p', 'r', 'i', 'n', 't']
  | trueKw => ['t', 'r', 'u', 'e']
  | falseKw => ['f', 'a', 'l', 's', 'e']
  | nilKw => ['n', 'i', 'l']

/-- How a keyword is spelled. -/
def text (k : Keyword) : String := String.ofList k.chars

/-- Every keyword. -/
def all : List Keyword :=
  [letKw, fnKw, returnKw, ifKw, elseKw, whileKw, breakKw, continueKw, printKw, trueKw, falseKw,
   nilKw]

/-- The keyword with these characters, if any. -/
def ofChars? (word : List Char) : Option Keyword := all.find? fun k => k.chars == word

/-- The keyword that `word` spells, if any. -/
def ofWord? (word : String) : Option Keyword := ofChars? word.toList

end Keyword

/-! ## Symbols -/

/-- Operators and punctuation. -/
inductive Symbol where
  | plus | minus | star | slash | percent | bang | assign
  | equalEqual | bangEqual | less | lessEqual | greater | greaterEqual | andAnd | orOr
  | leftParen | rightParen | leftBrace | rightBrace | comma | semicolon
  deriving Repr, DecidableEq

namespace Symbol

/-- The characters of a symbol. -/
def chars : Symbol → List Char
  | plus => ['+']
  | minus => ['-']
  | star => ['*']
  | slash => ['/']
  | percent => ['%']
  | bang => ['!']
  | assign => ['=']
  | equalEqual => ['=', '=']
  | bangEqual => ['!', '=']
  | less => ['<']
  | lessEqual => ['<', '=']
  | greater => ['>']
  | greaterEqual => ['>', '=']
  | andAnd => ['&', '&']
  | orOr => ['|', '|']
  | leftParen => ['(']
  | rightParen => [')']
  | leftBrace => ['\x7b']
  | rightBrace => ['\x7d']
  | comma => [',']
  | semicolon => [';']

/-- How a symbol is written. -/
def text (s : Symbol) : String := String.ofList s.chars

/-- Every symbol, the ones of two characters first. -/
def all : List Symbol :=
  [equalEqual, bangEqual, lessEqual, greaterEqual, andAnd, orOr,
   plus, minus, star, slash, percent, bang, assign, less, greater,
   leftParen, rightParen, leftBrace, rightBrace, comma, semicolon]

/-- The longest symbol at the front of a text. -/
def atFront? (cs : List Char) : Option Symbol := all.find? fun s => s.chars.isPrefixOf cs

end Symbol

/-! ## Tokens -/

/-- What a token is, with the value of a literal. -/
inductive TokenKind where
  | integer (n : Int64)
  | float (x : Binary64)
  | str (s : String)
  | identifier
  | keyword (k : Keyword)
  | symbol (s : Symbol)
  | newline
  | eof
  deriving DecidableEq

/-- The name of a kind in token listings. -/
def TokenKind.describe : TokenKind → String
  | integer _ => "integer"
  | float _ => "float"
  | str _ => "string"
  | identifier => "identifier"
  | keyword _ => "keyword"
  | symbol s => s!"'{s.text}'"
  | newline => "newline"
  | eof => "end of input"

/-- A token of a source text. -/
structure Token where
  kind : TokenKind
  text : String
  span : Span
  deriving DecidableEq

/-- One line of a token listing. -/
def Token.line (t : Token) : String :=
  match t.kind with
  | .newline => s!"{t.span.text} newline"
  | .eof => s!"{t.span.text} eof"
  | kind => s!"{t.span.text} {kind.describe} {t.text}"

end Scriptlet
