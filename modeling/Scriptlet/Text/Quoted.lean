/-
  Quoted text: string literals between double quotes.

  Six characters have an escape, a backslash and a letter; inside a literal the quote, the
  backslash, line feed, tab, carriage return and NUL are written that way and all else as itself.

  * `quote`    — the literal of a text;
  * `readBody` — reads a literal from just after its opening quote, and says how far it reaches.
    It also accepts the escaped characters other than quote and backslash raw, so line breaks may
    stand inside a literal.
-/

namespace Scriptlet.Text

/-- The character that a backslash and `letter` stand for. -/
def unescape? (letter : Char) : Option Char :=
  match letter with
  | 'n' => some '\n'
  | 't' => some '\t'
  | 'r' => some '\r'
  | '0' => some '\x00'
  | '"' => some '"'
  | '\\' => some '\\'
  | _ => none

/-- The letter that, after a backslash, stands for `c`. -/
def escapeLetter? (c : Char) : Option Char :=
  match c with
  | '\n' => some 'n'
  | '\t' => some 't'
  | '\r' => some 'r'
  | '\x00' => some '0'
  | '"' => some '"'
  | '\\' => some '\\'
  | _ => none

/-- One character as it is written inside a literal. -/
def escape (c : Char) : List Char :=
  match escapeLetter? c with
  | some letter => ['\\', letter]
  | none => [c]

/-- The literal that denotes `text`. -/
def quote (text : List Char) : List Char :=
  '"' :: text.flatMap escape ++ ['"']

/-- How reading the inside of a literal ends. -/
inductive QuotedBody where
  /-- A closing quote was found: the text denoted, and the characters read, the quote included. -/
  | closed (text : List Char) (width : Nat)
  /-- The backslash `offset` characters ahead escapes `letter`, which has no meaning. -/
  | badEscape (letter : Char) (offset : Nat)
  /-- The source ends before the literal does. -/
  | unterminated
  deriving Repr, DecidableEq

/-- The body when `width` more characters, denoting `c`, stand in front of it. -/
def QuotedBody.after (c : Char) (width : Nat) : QuotedBody → QuotedBody
  | .closed text w => .closed (c :: text) (w + width)
  | .badEscape letter offset => .badEscape letter (offset + width)
  | .unterminated => .unterminated

/-- Reads a literal from just after its opening quote. -/
def readBody : List Char → QuotedBody
  | [] => .unterminated
  | '"' :: _ => .closed [] 1
  | '\\' :: [] => .unterminated
  | '\\' :: letter :: rest =>
    match unescape? letter with
    | some c => (readBody rest).after c 2
    | none => .badEscape letter 0
  | c :: rest => (readBody rest).after c 1

end Scriptlet.Text
