/-
  The command line: a command and the files it is applied to.

  `tokens`, `tree` and `fmt` print a view of each file, `check` says whether a file is laid out
  canonically, `run` runs it.  Files are taken one after the other, and a file that cannot be read
  or is in error does not keep the others from being processed.  Reading files is left to the
  caller, so a command is a function from the contents of files to what it prints.
-/
import Scriptlet.Session
import Scriptlet.Tree.Layout
import Scriptlet.Tree.Outline

namespace Scriptlet.Cli

/-- Why a file cannot be read as text. -/
inductive ReadFault where
  | missing
  | directory
  | notText
  | other (message : String)
  deriving Repr, DecidableEq

/-- The wording of a fault. -/
def ReadFault.message : ReadFault → String
  | missing => "No such file or directory (os error 2)"
  | directory => "Is a directory (os error 21)"
  | notText => "stream did not contain valid UTF-8"
  | other message => message

/-- What a command printed so far, and whether something went wrong. -/
structure Report where
  stdout : String := ""
  stderr : String := ""
  failed : Bool := false

namespace Report

/-- Appends to the standard output. -/
def print (r : Report) (text : String) : Report := { r with stdout := r.stdout ++ text }

/-- Appends a line to the error output. -/
def note (r : Report) (line : String) : Report := { r with stderr := r.stderr ++ line ++ "\n" }

/-- Appends a line about a file and remembers the failure. -/
def fail (r : Report) (path reason : String) : Report :=
  { r.note s!"{path}: {reason}" with failed := true }

end Report

/-- What the program leaves when it ends. -/
structure Exit where
  stdout : String
  stderr : String
  code : Nat
  deriving Repr, DecidableEq

/-- The end after all files. -/
def Report.finish (r : Report) : Exit := ⟨r.stdout, r.stderr, if r.failed then 1 else 0⟩

/-- The end after a mistake in the arguments. -/
def Report.abort (r : Report) (lines : List String) : Exit :=
  let r := lines.foldl Report.note r
  ⟨r.stdout, r.stderr, 2⟩

/-- How to call the program. -/
def usage : List String :=
  ["Usage: yaj <command> [files...]",
   "",
   "Commands:",
   "  tokens  Print one token per line",
   "  tree    Print the syntax tree",
   "  fmt     Format script(s) and print to stdout",
   "  check   Check if script(s) are formatted",
   "  run     Run script(s) and print their output",
   "",
   "Examples:",
   "  yaj run hello.yaj",
   "  yaj fmt hello.yaj",
   "  yaj tree hello.yaj"]

/-! ## Commands -/

/-- What can be done with a file. -/
inductive Command where
  | tokens | tree | fmt | check | run
  deriving Repr, DecidableEq

/-- The word for a command. -/
def Command.name : Command → String
  | tokens => "tokens"
  | tree => "tree"
  | fmt => "fmt"
  | check => "check"
  | run => "run"

/-- Every command. -/
def Command.all : List Command := [.tokens, .tree, .fmt, .check, .run]

/-- The command that a word names. -/
def Command.ofName? (word : String) : Option Command := all.find? fun c => c.name == word

/-- Adds a view of the program in a file, or the error that it has none. -/
def view (path content : String) (r : Report) (add : Program Origin → Report → Report) : Report :=
  match parseSource content with
  | .ok p => add p r
  | .error e => r.fail path e.message

/-- Applies a command to a file; nothing when a run reaches the bound on steps. -/
def Command.apply (fuel : Nat) (c : Command) (path content : String) (r : Report) :
    Option Report :=
  match c with
  | .tokens =>
    some <|
      match scan content with
      | .ok listing => r.print (String.join (listing.map fun t => t.line ++ "\n"))
      | .error e => r.fail path e.message
  | .tree => some (view path content r fun p r => r.print (p.outline.text ++ "\n"))
  | .fmt => some (view path content r fun p r => r.print p.format)
  | .check =>
    some <|
      view path content r fun p r =>
        if p.format = content then r.note s!"{path}: formatted" else r.fail path "not formatted"
  | .run => do
    let (output, error) ← runSource fuel content
    let r := if output = "" then r else r.print (output ++ "\n")
    match error with
    | none => return r
    | some e => return r.fail path e.message

/-- Applies the command named `word` to files, each with its content or the reason it has none.
    An unknown command is noticed at the first file that can be read. -/
def process (fuel : Nat) (word : String) :
    List (String × Except ReadFault String) → Report → Option Exit
  | [], r => some r.finish
  | (path, .error fault) :: rest, r => process fuel word rest (r.fail path fault.message)
  | (path, .ok content) :: rest, r =>
    match Command.ofName? word with
    | none => some (r.abort [s!"Unknown command: {word}"])
    | some c =>
      match c.apply fuel path content r with
      | none => none
      | some r => process fuel word rest r

/-- What the program does with its arguments, given how files are read; nothing when a run reaches
    the bound on steps. -/
def run (fuel : Nat) (read : String → Except ReadFault String) (args : List String) :
    Option Exit :=
  match args with
  | [] => some (Report.abort {} usage)
  | command :: paths =>
    if command = "--help" || command = "-h" then some (Report.abort {} usage)
    else if paths.isEmpty then some (Report.abort {} ["Error: no files specified"])
    else process fuel command (paths.map fun path => (path, read path)) {}

end Scriptlet.Cli
