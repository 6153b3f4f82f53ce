/-
  A single character as a message shows it: between single quotes, with the usual escapes, and a
  hidden character by its code point in hexadecimal.
-/
import Scriptlet.Text.Hidden

namespace Scriptlet.Text

/-- The inside of `shown`. -/
def shownBody (c : Char) : List Char :=
  match c with
  | '\x00' => ['\\', '0']
  | '\t' => ['\\', 't']
  | '\r' => ['\\', 'r']
  | '\n' => ['\\', 'n']
  | '\'' => ['\\', '\'']
  | '\\' => ['\\', '\\']
  | _ =>
    if isHidden c then ['\\', 'u', '\x7b'] ++ Nat.toDigits 16 c.toNat ++ ['\x7d'] else [c]

/-- The character between single quotes. -/
def shown (c : Char) : String :=
  String.ofList ('\'' :: shownBody c ++ ['\''])

end Scriptlet.Text
