/-
  The parser accepts exactly its grammar.

  1. **Sound** (`parse_sound`) — an accepted token list has a derivation whose tree is the shape of
     the program, and the program satisfies the context conditions.
  2. **Complete** (`parse_complete`) — a derivation whose tree satisfies the context conditions is
     found, unless it opens more levels of nesting than the limit allows; then, and only then, the
     nesting is reported as too deep.
  3. **Unambiguous** — parentheses aside, all derivations of an accepted token list have one tree.
-/
import Scriptlet.Proofs.Grammar.StatementCompleteness

namespace Scriptlet

open Grammar Parse

theorem parse_eq (tokens : List Token) : parse tokens =
    match statements (statement (bound tokens)) false (bound tokens) (.initial tokens) with
    | .ok body _ => .ok ⟨body⟩
    | .error e _ => .error e := rfl

/-- What is accepted has a derivation. -/
theorem parse_sound {tokens : List Token} {p : Program Origin} (h : parse tokens = .ok p) :
    (∃ k, k ≤ maxNesting ∧ Spells k (Token.words tokens) p.shape) ∧ p.wellPlaced = true := by
  rw [parse_eq] at h
  -- a program is a list of statements outside of every block
  cases hrun : statements (statement (bound tokens)) false (bound tokens) (.initial tokens) with
  | error e s' => rw [hrun] at h; exact absurd h (by nofun)
  | ok body s' =>
    rw [hrun] at h
    cases h
    obtain ⟨⟨k, ws, hp, hfit, hbody⟩, hwp, hend⟩ := statements_sound (rules_sound (bound tokens)).1
      false (bound tokens) (.initial tokens) body s' (Nat.zero_le _) hrun
    -- nothing is left behind it
    have hall : Token.words tokens = ws := by
      have := hp.words
      rw [hend rfl, List.append_nil] at this
      exact this
    refine ⟨⟨k, ?_, ?_⟩, hwp⟩
    · have hfit : 0 + k ≤ maxNesting := hfit
      omega
    · rw [hall]
      exact hbody

theorem Token.length_words_le (tokens : List Token) :
    (Token.words tokens).length ≤ tokens.length := by
  unfold Token.words
  rw [List.length_map]
  exact (List.takeWhile_sublist _).length_le

/-- What has a derivation is accepted, up to the nesting limit. -/
theorem parse_complete {tokens : List Token} {k : Nat} {t : Program Unit}
    (h : Spells k (Token.words tokens) t) (hwp : t.wellPlaced = true) :
    (k ≤ maxNesting → ∃ p, parse tokens = .ok p ∧ p.shape = t) ∧
    (maxNesting < k → ∃ e, parse tokens = .error e ∧ e.cause = .nestingTooDeep) := by
  have hlen := Token.length_words_le tokens
  have hbound : bound tokens = 16 * (tokens.length + 1) := rfl
  have hread := statements_complete h (bound tokens) (bound tokens) false (.initial tokens) [] []
    (fun _ hw => absurd hw (by simp)) (List.append_nil _).symm (by omega) (by omega) rfl hwp
  have hdepth : (State.initial tokens).depth = 0 := rfl
  constructor
  · intro hk
    obtain ⟨body, s', hrun, -, hshape⟩ := hread.fits (by omega)
    refine ⟨⟨body⟩, ?_, congrArg Program.mk hshape⟩
    rw [parse_eq, hrun]
  · intro hk
    obtain ⟨e, s', hrun, hcause⟩ := hread.deep (by omega) (by omega)
    exact ⟨e, by rw [parse_eq, hrun], hcause⟩

/-- **The parser accepts exactly its grammar.**  An accepted token list has a derivation of the
    shape of its program; a derivation of a tree that satisfies the context conditions is accepted
    with that tree, or is nested too deep; and all such derivations of an accepted list have one
    tree. -/
theorem parse_exact (tokens : List Token) :
    (∀ p, parse tokens = .ok p →
      (∃ k, k ≤ maxNesting ∧ Spells k (Token.words tokens) p.shape) ∧ p.wellPlaced = true) ∧
    (∀ k t, Spells k (Token.words tokens) t → t.wellPlaced = true →
      (k ≤ maxNesting → ∃ p, parse tokens = .ok p ∧ p.shape = t) ∧
      (maxNesting < k → ∃ e, parse tokens = .error e ∧ e.cause = .nestingTooDeep)) ∧
    (∀ p, parse tokens = .ok p → ∀ k t, Spells k (Token.words tokens) t → t.wellPlaced = true →
      t = p.shape) := by
  refine ⟨fun p => parse_sound, fun k t => parse_complete, ?_⟩
  intro p hp k t ht hwp
  -- the words have been read one way, and there is no other
  obtain ⟨hfits, hdeep⟩ := parse_complete ht hwp
  by_cases hk : k ≤ maxNesting
  · obtain ⟨q, hq, rfl⟩ := hfits hk
    rw [hp] at hq
    cases hq
    rfl
  · obtain ⟨e, he, -⟩ := hdeep (by omega)
    rw [hp] at he
    exact absurd he (by simp)

/-- The statement `1 + 2 * 3 - 4` on one line: its derivation is found.  The product is an operand
    of the sum, and the sum is the left operand of the difference. -/
theorem parse_exact_difference :
    let span : Span := .first
    let number (text : String) (n : Int64) : Token := ⟨.integer n, text, span⟩
    let symbol (text : String) (x : Symbol) : Token := ⟨.symbol x, text, span⟩
    let tokens : List Token := [number "1" 1, symbol "+" .plus, number "2" 2, symbol "*" .star,
      number "3" 3, symbol "-" .minus, number "4" 4, ⟨.newline, "\n", span⟩, ⟨.eof, "", span⟩]
    let literal (n : Int64) : Expr Unit := .literal () (.integer n)
    ∃ p, parse tokens = .ok p ∧ p.shape = ⟨[.expr () (.operation ()
      (.binary (.arithmetic .subtract))
      (.operation () (.binary (.arithmetic .add)) (literal 1)
        (.operation () (.binary (.arithmetic .multiply)) (literal 2) (literal 3)))
      (literal 4))]⟩ := by
  intro span number symbol tokens literal
  -- each number, raised to the level where it is an operand
  have unary (text : String) (n : Int64) : Level .unary 0 0 [⟨.integer n, text⟩] (literal n) :=
    .tighter .unary (.atom rfl)
  have factor (text : String) (n : Int64) : Level .factor 0 0 [⟨.integer n, text⟩] (literal n) :=
    .tighter .factor (unary text n)
  -- the product is the right operand of the sum, and the sum the left one of the difference
  have product := Level.link .multiply .factor ⟨.symbol .star, "*"⟩ [] (factor "2" 2) rfl
    newlines_nil (unary "3" 3)
  have sum := Level.link .add .term ⟨.symbol .plus, "+"⟩ [] (.tighter .term (factor "1" 1)) rfl
    newlines_nil product
  have difference := Level.link .subtract .term ⟨.symbol .minus, "-"⟩ [] sum rfl newlines_nil
    (factor "4" 4)
  have value : Expression 2 _ _ := .operand (.tighter .or (.tighter .and (.tighter .equality
    (.tighter .comparison difference))))
  -- the line is one statement, which its newline ends
  have line := Statements.more [] ⟨.newline, "\n"⟩ (fun _ hw => absurd hw (by simp)) (.expr value)
    (Or.inl rfl) (.none [] fun _ hw => absurd hw (by simp))
  exact ((parse_exact tokens).2.1 2 ⟨_⟩ line rfl).1 (by decide)

end Scriptlet
