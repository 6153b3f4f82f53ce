/-
  Sessions: one source text, and what its runs left behind.

  Every run starts from a fresh machine.  It replaces the output and the result of the run before;
  a failed run leaves no result and adds its error to the list of all errors; the program is that
  of the last run that got past parsing.
-/
import Scriptlet.Error
import Scriptlet.Eval.Evaluate

namespace Scriptlet

/-- A source text with the traces of its runs. -/
structure Session where
  source : String
  limits : Limits
  /-- Segments printed by the last run. -/
  output : List String
  /-- Errors of all failed runs, oldest first. -/
  errors : List Error
  /-- Tree of the last run that got past parsing. -/
  program : Option (Program Origin)
  /-- Value of the last run, if it succeeded. -/
  result : Option Value

/-- Printed segments as one text, a line for each. -/
def joinOutput (output : List String) : String := "\n".intercalate output

namespace Session

/-- A session that has not run. -/
def new (source : String) : Session := ⟨source, {}, [], [], none, none⟩

/-- The same session under other limits. -/
def withLimits (s : Session) (limits : Limits) : Session := { s with limits }

/-- The tokens of the source. -/
def lex (s : Session) : Except LexError (List Token) := scan s.source

/-- The session after a run that failed before it could evaluate anything. -/
def reject (s : Session) (e : Error) : Session :=
  { s with output := [], result := none, errors := s.errors ++ [e] }

/-- Runs the source and gives the error that stopped it, if any; nothing when the bound on steps is
    reached. -/
def run (fuel : Nat) (s : Session) : Option (Option Error × Session) :=
  match parseSource s.source with
  | .error e => some (some e, s.reject e)
  | .ok p =>
    let (outcome, m) := Machine.run { limits := s.limits } fuel p Machine.initial
    let done := { s with output := m.output.toList, program := some p, result := none }
    match outcome with
    | .outOfFuel => none
    | .fault e => some (some (.runtime e), { done with errors := s.errors ++ [.runtime e] })
    | .value v => some (none, { done with result := some v })

/-- The output as one text. -/
def combinedOutput (s : Session) : String := joinOutput s.output

end Session

/-- Runs a source text in a session of its own: what it printed, and the error that stopped it. -/
def runSource (fuel : Nat) (source : String) : Option (String × Option Error) :=
  ((Session.new source).run fuel).map fun (e, s) => (s.combinedOutput, e)

end Scriptlet
