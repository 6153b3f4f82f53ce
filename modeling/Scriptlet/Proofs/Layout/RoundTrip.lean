/-
  The round trip: a layout is read back as the tree it came from.

  1. **Scanning** (`Program.scan_format`) — the text of a well-formed program starts with no byte
     order mark, so `scan` sees all of it and finds the words of the program.
  2. **Parsing** — those words spell the shape of the program and open `Program.nesting` levels, so
     the parser, which finds every derivation within the bound on nesting, finds this one.
-/
import Scriptlet.Proofs.Grammar.Correctness
import Scriptlet.Proofs.Layout.Canonical

namespace Scriptlet

variable {α : Type}

/-! ## The start of a layout -/

theorem leads_keyword (k : Keyword) : Leads k.chars := by
  cases k <;> exact ⟨_, _, rfl, by decide⟩

theorem leads_lead (k : Keyword) : Leads k.lead := (leads_keyword k).append [' ']

/-- The layout of a statement starts with a character that starts a lexeme. -/
theorem Stmt.leads_layout (depth : Nat) (s : Stmt α) (h : s.wellFormed = true) :
    Leads (s.layout depth) := by
  match s with
  -- an expression starts as expressions do
  | .expr _ e =>
    rw [Stmt.layout]
    exact Expr.leads_layout e h
  | .block _ body =>
    rw [Stmt.layout]
    exact ⟨'\x7b', _, rfl, by decide⟩
  -- any other statement starts with its keyword
  | .cond _ c t none | .cond _ c t (some branch) =>
    rw [Stmt.layout]
    simp only [List.append_assoc]
    exact (leads_lead .ifKw).append _
  | .declare _ x e =>
    rw [Stmt.layout, List.append_assoc]
    exact (leads_lead .letKw).append _
  | .loop _ c body =>
    rw [Stmt.layout, List.append_assoc]
    exact (leads_lead .whileKw).append _
  | .function _ f params body =>
    rw [Stmt.layout]
    simp only [List.append_assoc]
    exact (leads_lead .fnKw).append _
  | .print _ args =>
    rw [Stmt.layout]
    exact (leads_keyword .printKw).append _
  | .ret _ e =>
    rw [Stmt.layout]
    exact (leads_keyword .returnKw).append _
  | .breakLoop _ =>
    rw [Stmt.layout]
    exact leads_keyword .breakKw
  | .continueLoop _ =>
    rw [Stmt.layout]
    exact leads_keyword .continueKw

/-- A text that starts with a lexeme starts with no byte order mark. -/
theorem Leads.dropMark {text : List Char} (h : Leads text) : Scan.dropMark text = text := by
  obtain ⟨c, cs, rfl, hc⟩ := h
  have hmark : c ≠ '\uFEFF' := by
    rintro rfl
    exact absurd hc (by decide +kernel)
  unfold Scan.dropMark
  split
  case h_1 heq => exact absurd (List.cons.inj heq).1 hmark
  case h_2 => rfl

theorem dropMark_lines {body : List (Stmt α)} (h : Stmt.allWellFormed body = true) :
    Scan.dropMark (Stmt.lines 0 body) = Stmt.lines 0 body := by
  cases body with
  | nil => rfl
  | cons s rest =>
    have hs := Stmt.leads_layout 0 s ((Bool.and_eq_true _ _).mp h).1
    rw [Stmt.lines, lineAt, List.append_assoc, List.append_assoc]
    exact (hs.append _).dropMark

/-! ## Reading a layout back -/

/-- **The text of a well-formed program is scanned as its words.** -/
theorem Program.scan_format (p : Program α) (h : p.wellFormed = true) :
    ∃ tokens, scan p.format = .ok tokens ∧ Token.words tokens = p.words := by
  have hbody : Stmt.allWellFormed p.statements = true := ((Bool.and_eq_true _ _).mp h).2
  have hscans := Stmt.scans_lines 0 p.statements hbody [] [] Scan.scans_nil
  rw [List.append_nil, List.append_nil] at hscans
  rw [scan, Program.format, String.toList_ofList, dropMark_lines hbody]
  exact hscans .first

/-- What the parser makes of the words of a well-formed program. -/
theorem Program.parse_words (p : Program α) (h : p.wellFormed = true) {tokens : List Token}
    (hwords : Token.words tokens = p.words) :
    (p.nesting ≤ maxNesting → ∃ q, parse tokens = .ok q ∧ q.shape = p.shape) ∧
      (maxNesting < p.nesting → ∃ e, parse tokens = .error e ∧ e.cause = .nestingTooDeep) := by
  have hspells : Grammar.Spells p.nesting (Token.words tokens) p.shape := by
    rw [hwords]
    exact p.spells h
  have hplaced : p.shape.wellPlaced = true := by
    rw [Program.wellPlaced_shape]
    exact ((Bool.and_eq_true _ _).mp h).1
  exact parse_complete hspells hplaced

/-- **The round trip**: the text of a well-formed program is scanned, and read back as a program of
    the same shape if its nesting is within the bound, else refused for its nesting and for nothing
    else. -/
theorem Program.parse_format (p : Program α) (h : p.wellFormed = true) :
    ∃ tokens, scan p.format = .ok tokens ∧
      (p.nesting ≤ maxNesting → ∃ q, parse tokens = .ok q ∧ q.shape = p.shape) ∧
      (maxNesting < p.nesting → ∃ e, parse tokens = .error e ∧ e.cause = .nestingTooDeep) := by
  obtain ⟨tokens, hscan, hwords⟩ := p.scan_format h
  exact ⟨tokens, hscan, p.parse_words h hwords⟩

/-- `while x < 10 { if !f(x)(nil) { break } else { x = -(x - (1 - 2.5)) } }`, with every kind of
    operand that needs parentheses or does not. -/
def sampleLoop : Program Unit :=
  let minus (l r : Expr Unit) : Expr Unit :=
    .operation () (.binary (.arithmetic .subtract)) l r
  let x : Expr Unit := .name () "x"
  ⟨[.loop () (.operation () (.binary (.comparison .less)) x (.literal () (.integer 10)))
    [.cond () (.unary () .not (.call () (.call () (.name () "f") [x]) [.literal () .nil]))
      [.breakLoop ()]
      (some (.block () [.expr () (.assign () "x" (.unary () .negate
        (minus x (minus (.literal () (.integer 1))
          (.literal () (.float ⟨0x4004000000000000⟩))))))]))]]⟩

/-- The sample loop is read back. -/
theorem Program.parse_format_sampleLoop : sampleLoop.wellFormed = true ∧
    ∃ tokens q, scan sampleLoop.format = .ok tokens ∧ parse tokens = .ok q ∧
      q.shape = sampleLoop.shape := by
  have hwell : sampleLoop.wellFormed = true := by decide +kernel
  obtain ⟨tokens, hscan, hfits, -⟩ := sampleLoop.parse_format hwell
  obtain ⟨q, hparse, hshape⟩ := hfits (by decide +kernel)
  exact ⟨hwell, tokens, q, hscan, hparse, hshape⟩

end Scriptlet
