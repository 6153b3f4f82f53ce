/-
  The program: reads the files named on the command line and prints what the command leaves.
-/
import Scriptlet.Cli

open Scriptlet

/-- The content of a file, or the reason it cannot be read as text. -/
def readText (path : String) : IO (Except Cli.ReadFault String) := do
  try
    let bytes ← IO.FS.readBinFile path
    match String.fromUTF8? bytes with
    | some content => return .ok content
    | none => return .error .notText
  catch e =>
    match e with
    | .noFileOrDirectory .. => return .error .missing
    | .inappropriateType .. => return .error .directory
    | e => return .error (.other (toString e))

/-- Runs that end are far below this bound on their steps. -/
def ample : Nat := 0x4000000000000000

/-- Reads every file first, then runs the command on the contents. -/
def main (args : List String) : IO UInt32 := do
  let files ← args.tail.mapM fun path => return (path, ← readText path)
  let read (path : String) : Except Cli.ReadFault String :=
    (files.lookup path).getD (.error .missing)
  match Cli.run ample read args with
  | none => return 1
  | some exit =>
    IO.print exit.stdout
    IO.eprint exit.stderr
    return UInt32.ofNat exit.code
