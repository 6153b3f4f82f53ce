/-
  Errors of every stage: reading tokens, parsing them, running the program.
-/
import Scriptlet.Eval.Fault
import Scriptlet.Parse.Grammar
import Scriptlet.Token.Scan

namespace Scriptlet

/-- Why a source text has no result. -/
inductive Error where
  | lex (e : LexError)
  | parse (e : ParseError)
  | runtime (e : RuntimeError Origin)
  deriving Repr, DecidableEq

namespace Error

/-- The place an error is reported at. -/
def span : Error → Span
  | lex e => e.span
  | parse e => e.span
  | runtime e => e.site.span

/-- The wording of an error, with its place. -/
def message : Error → String
  | lex e => e.message
  | parse e => e.message
  | runtime e => e.message

end Error

/-- The program that a source text spells. -/
def parseSource (source : String) : Except Error (Program Origin) :=
  match scan source with
  | .error e => .error (.lex e)
  | .ok tokens =>
    match parse tokens with
    | .error e => .error (.parse e)
    | .ok p => .ok p

end Scriptlet
