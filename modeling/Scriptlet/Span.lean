/-
  Span: a place in a source text.

  Lines and columns count from 1, and a column counts characters.  Walking over a text moves a
  place to the next column, or to the start of the next line after a line feed; so the place
  reached from `Span.first` is one more than the number of line feeds passed and one more than the
  number of characters since the last of them.
-/

namespace Scriptlet

/-- Line and column, both from 1. -/
structure Span where
  line : Nat
  column : Nat
  deriving Repr, DecidableEq, Inhabited

namespace Span

/-- The place of the first character. -/
def first : Span := ⟨1, 1⟩

/-- The place after a character `c` at this place. -/
def step (s : Span) (c : Char) : Span :=
  if c = '\n' then ⟨s.line + 1, 1⟩ else ⟨s.line, s.column + 1⟩

/-- The place after a stretch of text that starts here. -/
def after (s : Span) (text : List Char) : Span := text.foldl step s

/-- Line and column with a colon between them. -/
def text (s : Span) : String := s!"{s.line}:{s.column}"

/-- The position part of every error message. -/
def phrase (s : Span) : String := s!"at line {s.line}, column {s.column}"

@[simp] theorem after_nil (s : Span) : s.after [] = s := rfl

@[simp] theorem after_cons (s : Span) (c : Char) (cs : List Char) :
    s.after (c :: cs) = (s.step c).after cs := rfl

theorem after_append (s : Span) (a b : List Char) : s.after (a ++ b) = (s.after a).after b := by
  simp [after, List.foldl_append]

end Span

end Scriptlet
