/-
  Scanning: a source text as a list of tokens.

  A text is an alternation of gaps and lexemes.  `splitGap` takes the longest gap at the front
  (spaces, tabs, form feeds, carriage returns no line feed follows, and comments); `lexeme` reads
  the longest lexeme that starts with the character after it; `scan` repeats the two until the text
  ends and closes the list with `eof`.  One byte order mark at the very front is no part of the
  text.
-/
import Scriptlet.Number.Decimal
import Scriptlet.Number.Integer
import Scriptlet.Text.Letter
import Scriptlet.Text.Numeral
import Scriptlet.Text.Quoted
import Scriptlet.Text.Shown
import Scriptlet.Token.Basic

namespace Scriptlet

/-! ## Errors -/

/-- Why a text has no tokens. -/
inductive LexFault where
  /-- A string literal without a closing quote. -/
  | unterminatedString
  /-- A backslash in a string literal before a character that it does not escape. -/
  | invalidEscape (letter : Char)
  /-- An integer literal above the 64-bit range. -/
  | integerOverflow (digits : String)
  /-- A float literal that rounds to infinity. -/
  | floatOverflow (digits : String)
  /-- A character that starts no token. -/
  | unexpectedCharacter (c : Char)
  deriving Repr, DecidableEq

/-- The wording of a fault. -/
def LexFault.message : LexFault → String
  | unterminatedString => "unterminated string"
  | invalidEscape letter => "invalid escape sequence: \\" ++ letter.toString
  | integerOverflow digits => s!"integer literal too large: {digits}"
  | floatOverflow digits => s!"float literal too large: {digits}"
  | unexpectedCharacter c => s!"unexpected character: {Text.shown c}"

/-- A fault and the place it is reported at. -/
structure LexError where
  cause : LexFault
  span : Span
  deriving Repr, DecidableEq

/-- The wording of an error, with its place. -/
def LexError.message (e : LexError) : String := s!"{e.cause.message} {e.span.phrase}"

namespace Scan

/-! ## Gaps -/

/-- Characters that only separate lexemes. -/
def isBlank (c : Char) : Bool := c == ' ' || c == '\t' || c == '\x0c'

/-- Line ends; a comment reaches up to one. -/
def isLineEnd (c : Char) : Bool := c == '\n' || c == '\r'

/-- The longest gap at the front of a text, and what follows it.  With `comment` the text starts
    inside a comment. -/
def splitGap (comment : Bool) : List Char → List Char × List Char
  | [] => ([], [])
  | c :: cs =>
    let extend (comment : Bool) := let (gap, rest) := splitGap comment cs; (c :: gap, rest)
    if comment && !isLineEnd c then extend true
    else if isBlank c || (c == '\r' && cs.head? != some '\n') then extend false
    else if c == '/' && cs.head? == some '/' then extend true
    else ([], c :: cs)

/-- Nothing is lost between gap and rest. -/
theorem splitGap_append (comment : Bool) (cs : List Char) :
    (splitGap comment cs).1 ++ (splitGap comment cs).2 = cs := by
  induction cs generalizing comment with
  | nil => rfl
  | cons c cs ih =>
    rw [splitGap]
    split
    · exact congrArg (c :: ·) (ih true)
    · split
      · exact congrArg (c :: ·) (ih false)
      · split
        · exact congrArg (c :: ·) (ih true)
        · rfl

theorem length_splitGap_le (comment : Bool) (cs : List Char) :
    (splitGap comment cs).2.length ≤ cs.length := by
  have h := congrArg List.length (splitGap_append comment cs)
  rw [List.length_append] at h
  omega

/-! ## Lexemes -/

/-- Characters a word may start with. -/
def isWordStart (c : Char) : Bool := c == '_' || Text.isLetter c

/-- Characters a word may go on with. -/
def isWordPart (c : Char) : Bool := c == '_' || Text.isLetter c || Text.isNumeral c

/-- A lexeme starting at a known character: its kind and the number of characters after the first,
    or a fault and how many characters ahead it lies. -/
abbrev Reading := Except (LexFault × Nat) (TokenKind × Nat)

/-- The kind of a word: a keyword, or else an identifier. -/
def wordKind (word : List Char) : TokenKind :=
  match Keyword.ofChars? word with
  | some k => .keyword k
  | none => .identifier

/-- A word that starts with `c`. -/
def readWord (c : Char) (cs : List Char) : Reading :=
  let tail := cs.takeWhile isWordPart
  .ok (wordKind (c :: tail), tail.length)

/-- The digits after a decimal point at the front of `cs`; none without a digit there. -/
def fraction : List Char → List Char
  | '.' :: cs => cs.takeWhile Char.isDigit
  | _ => []

/-- A number that starts with the digit `c`.  The point belongs to it only before a digit. -/
def readNumber (c : Char) (cs : List Char) : Reading :=
  let tail := cs.takeWhile Char.isDigit
  let whole := c :: tail
  match fraction (cs.drop tail.length) with
  | [] =>
    match Integer.fit? (Decimal.natOfDigits whole) with
    | some n => .ok (.integer n, tail.length)
    | none => .error (.integerOverflow (String.ofList whole), 0)
  | places =>
    let x := Decimal.ofFraction whole places
    if x.isFinite then .ok (.float x, tail.length + 1 + places.length)
    else .error (.floatOverflow (String.ofList (whole ++ '.' :: places)), 0)

/-- A string literal whose opening quote is already read. -/
def readString (cs : List Char) : Reading :=
  match Text.readBody cs with
  | .closed text width => .ok (.str (String.ofList text), width)
  | .badEscape letter offset => .error (.invalidEscape letter, offset + 1)
  | .unterminated => .error (.unterminatedString, 0)

/-- A symbol that starts with `c`. -/
def readSymbol (c : Char) (cs : List Char) : Reading :=
  match Symbol.atFront? (c :: cs) with
  | some s => .ok (.symbol s, s.chars.length - 1)
  | none => .error (.unexpectedCharacter c, 0)

/-- The lexeme at the front of `c :: cs`, a text that starts with no gap.  A carriage return here
    stands before a line feed, and the two are one line end. -/
def lexeme (c : Char) (cs : List Char) : Reading :=
  if c == '\n' then .ok (.newline, 0)
  else if c == '\r' then .ok (.newline, 1)
  else if c == '"' then readString cs
  else if c.isDigit then readNumber c cs
  else if isWordStart c then readWord c cs
  else readSymbol c cs

/-- The text a token keeps: its lexeme, but one line feed for either line end. -/
def tokenText (kind : TokenKind) (lexeme : List Char) : String :=
  match kind with
  | .newline => "\n"
  | _ => String.ofList lexeme

/-- The tokens of a text that starts at `span`. -/
def scanFrom (span : Span) (source : List Char) : Except LexError (List Token) :=
  let start := span.after (splitGap false source).1
  match _h : (splitGap false source).2 with
  | [] => .ok [⟨.eof, "", start⟩]
  | c :: cs =>
    match lexeme c cs with
    | .error (cause, ahead) => .error ⟨cause, start.after ((c :: cs).take ahead)⟩
    | .ok (kind, extra) =>
      let taken := c :: cs.take extra
      match scanFrom (start.after taken) (cs.drop extra) with
      | .error e => .error e
      | .ok tokens => .ok (⟨kind, tokenText kind taken, start⟩ :: tokens)
termination_by source.length
decreasing_by
  have := length_splitGap_le false source
  rw [_h] at this
  simp only [List.length_cons, List.length_drop] at this ⊢
  omega

/-- A text without one leading byte order mark. -/
def dropMark : List Char → List Char
  | '\uFEFF' :: cs => cs
  | cs => cs

end Scan

/-- The tokens of a source text, ending with `eof`. -/
def scan (source : String) : Except LexError (List Token) :=
  Scan.scanFrom .first (Scan.dropMark source.toList)

end Scriptlet
