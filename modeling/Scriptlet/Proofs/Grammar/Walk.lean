/-
  Walking over words: what the single steps of the parser do to the words still to read.

  1. **Words left** — `State.words` are the words before the end of the input; a parser that has
     none left is at its end, whether an `eof` token stands there or nothing at all.
  2. **Passing** — `Passed s s' ws` says that exactly the words `ws` were read between `s` and `s'`
     and that all three counters are back at their values.
  3. **Steps** — one lemma for each single step: reading one word, skipping newlines or separators
     (which pass all of them, so the word after the gap is none), and going a level deeper.
-/
import Scriptlet.Proofs.Grammar.Derivation

namespace Scriptlet

/-! ## Words of a token list -/

theorem Token.words_nil : Token.words [] = [] := rfl

/-- The words end at the first `eof`. -/
theorem Token.words_cons (t : Token) (ts : List Token) :
    Token.words (t :: ts) = if t.kind = .eof then [] else t.word :: Token.words ts := by
  unfold Token.words
  by_cases h : t.kind = .eof
  · simp [h]
  · simp [h]

/-- Tokens none of which is `eof` give all their words. -/
theorem Token.words_append {run : List Token} (h : ∀ t ∈ run, t.kind ≠ .eof) (ts : List Token) :
    Token.words (run ++ ts) = run.map Token.word ++ Token.words ts := by
  induction run with
  | nil => rfl
  | cons t run ih =>
    rw [List.cons_append, Token.words_cons, if_neg (h t (List.mem_cons_self ..)),
      ih fun t' ht' => h t' (List.mem_cons_of_mem t ht')]
    rfl

namespace Parse

open Grammar

namespace State

variable {s s' s₁ : State} {w : Word} {ws : List Word}

/-- The words still to read. -/
def words (s : State) : List Word := Token.words s.rest

/-- A word left is that of the next token, which is no `eof`. -/
theorem rest_of_words (h : s.words = w :: ws) :
    ∃ t ts, s.rest = t :: ts ∧ t.kind ≠ .eof ∧ t.word = w ∧ Token.words ts = ws := by
  unfold words at h
  cases hr : s.rest with
  | nil => rw [hr, Token.words_nil] at h; exact absurd h (by simp)
  | cons t ts =>
    rw [hr, Token.words_cons] at h
    by_cases he : t.kind = .eof
    · rw [if_pos he] at h; exact absurd h (by simp)
    · rw [if_neg he] at h
      obtain ⟨h1, h2⟩ := List.cons.inj h
      exact ⟨t, ts, rfl, he, h1, h2⟩

/-- The next word tells the kind that comes next. -/
theorem kind?_of_words (h : s.words = w :: ws) : s.kind? = some w.kind := by
  obtain ⟨t, ts, hr, -, rfl, -⟩ := rest_of_words h
  rw [kind?, hr]
  rfl

/-- With no words left the input ends, with an `eof` or without one. -/
theorem kind?_of_words_nil (h : s.words = []) : s.kind? = none ∨ s.kind? = some .eof := by
  unfold words at h
  unfold kind?
  cases hr : s.rest with
  | nil => exact Or.inl rfl
  | cons t ts =>
    rw [hr, Token.words_cons] at h
    by_cases he : t.kind = .eof
    · exact Or.inr (congrArg some he)
    · rw [if_neg he] at h; exact absurd h (by simp)

/-- A kind that comes next and is no `eof` is that of a word. -/
theorem words_of_kind? {kind : TokenKind} (h : s.kind? = some kind) (hne : kind ≠ .eof) :
    ∃ w ws, s.words = w :: ws ∧ w.kind = kind := by
  cases hw : s.words with
  | nil =>
    rcases kind?_of_words_nil hw with h' | h' <;> rw [h] at h'
    · exact absurd h' (by simp)
    · exact absurd (Option.some.inj h') hne
  | cons w ws =>
    rw [kind?_of_words hw] at h
    exact ⟨w, ws, rfl, Option.some.inj h⟩

/-- A symbol that comes next is a word. -/
theorem words_of_atSymbol {x : Symbol} (h : s.atSymbol x = true) :
    ∃ w ws, s.words = w :: ws ∧ w.kind = .symbol x :=
  words_of_kind? (eq_of_beq h) (by simp)

/-- So is a keyword. -/
theorem words_of_atKeyword {k : Keyword} (h : s.atKeyword k = true) :
    ∃ w ws, s.words = w :: ws ∧ w.kind = .keyword k :=
  words_of_kind? (eq_of_beq h) (by simp)

/-- Whether a symbol comes next is told by the next word. -/
theorem atSymbol_of_words {x : Symbol} (h : s.words = w :: ws) :
    s.atSymbol x = (w.kind == .symbol x) := by
  rw [atSymbol, kind?_of_words h]
  rfl

/-- So it is for a keyword. -/
theorem atKeyword_of_words {k : Keyword} (h : s.words = w :: ws) :
    s.atKeyword k = (w.kind == .keyword k) := by
  rw [atKeyword, kind?_of_words h]
  rfl

/-- At the end of the words there is no symbol. -/
theorem atSymbol_of_words_nil {x : Symbol} (h : s.words = []) : s.atSymbol x = false := by
  rcases kind?_of_words_nil h with h' | h' <;> rw [atSymbol, h'] <;> rfl

/-- Nor is there a keyword. -/
theorem atKeyword_of_words_nil {k : Keyword} (h : s.words = []) : s.atKeyword k = false := by
  rcases kind?_of_words_nil h with h' | h' <;> rw [atKeyword, h'] <;> rfl

/-- The end is where no words are left. -/
theorem atEnd_eq_true_iff : s.atEnd = true ↔ s.words = [] := by
  constructor
  · intro h
    cases hw : s.words with
    | nil => rfl
    | cons w ws =>
      obtain ⟨t, ts, hr, hne, hwt, -⟩ := rest_of_words hw
      have hk : w.kind ≠ .eof := by rw [← hwt]; exact hne
      rw [atEnd, kind?_of_words hw] at h
      split at h
      · rename_i heq; exact absurd heq (by simp)
      · rename_i heq; exact absurd (Option.some.inj heq) hk
      · exact absurd h (by simp)
  · intro h
    rcases kind?_of_words_nil h with h' | h' <;> rw [atEnd, h']

end State

/-! ## Passing words -/

/-- The words `ws`, and no others, were read between `s` and `s'`; nothing else has changed. -/
structure Passed (s s' : State) (ws : List Word) : Prop where
  words : s.words = ws ++ s'.words
  position : s'.position = s.position + ws.length
  depth : s'.depth = s.depth
  functions : s'.functions = s.functions
  loops : s'.loops = s.loops

namespace Passed

variable {s s' s₁ : State} {w : Word} {ws ws' : List Word}

theorem refl (s : State) : Passed s s [] := ⟨rfl, rfl, rfl, rfl, rfl⟩

/-- One stretch of words after another. -/
theorem trans (h : Passed s s₁ ws) (h' : Passed s₁ s' ws') : Passed s s' (ws ++ ws') where
  words := by rw [h.words, h'.words, List.append_assoc]
  position := by rw [h'.position, h.position, List.length_append]; omega
  depth := h'.depth.trans h.depth
  functions := h'.functions.trans h.functions
  loops := h'.loops.trans h.loops

/-- What is left after a known stretch of words. -/
theorem words_right (h : Passed s s' ws) {rest : List Word} (hs : s.words = ws ++ rest) :
    s'.words = rest := by
  have h' := h.words
  rw [hs] at h'
  exact (List.append_cancel_left h').symm

/-- Passing words never goes back. -/
theorem position_le (h : Passed s s' ws) : s.position ≤ s'.position := by
  rw [h.position]; omega

end Passed

namespace State

variable {s s' : State} {w : Word} {ws gap : List Word}

/-- Dropping tokens that are no `eof` passes their words. -/
theorem passed_drop {n : Nat} (h : ∀ t ∈ s.rest.take n, t.kind ≠ .eof) :
    Passed s (s.drop n) ((s.rest.take n).map Token.word) where
  words := by
    show Token.words s.rest = _ ++ Token.words (s.rest.drop n)
    rw [← Token.words_append h, List.take_append_drop]
  position := by rw [List.length_map]; rfl
  depth := rfl
  functions := rfl
  loops := rfl

/-- Reading one word. -/
theorem passed_next (h : s.words = w :: ws) : Passed s s.next [w] := by
  obtain ⟨t, ts, hr, hne, hw, -⟩ := rest_of_words h
  have htake : s.rest.take 1 = [t] := by rw [hr]; rfl
  have hd := passed_drop (s := s) (n := 1) (by
    intro t' ht'
    rw [htake, List.mem_singleton] at ht'
    rw [ht']; exact hne)
  rw [htake] at hd
  rw [← hw]
  exact hd

/-- One token further, one word less. -/
theorem words_next (h : s.words = w :: ws) : s.next.words = ws :=
  (passed_next h).words_right h

/-- Skipping passes a run of the given kinds, up to a word of another kind or the end. -/
theorem passed_skipWhile {p : TokenKind → Bool} (hp : p .eof = false) :
    ∃ gap, Passed s (s.skipWhile p) gap ∧ (∀ w ∈ gap, p w.kind = true) ∧
      ∀ w ∈ (s.skipWhile p).words.head?, p w.kind = false := by
  have htake : s.rest.take (s.rest.takeWhile fun t => p t.kind).length
      = s.rest.takeWhile fun t => p t.kind :=
    List.prefix_iff_eq_take.mp (List.takeWhile_prefix _) |>.symm
  have hdrop : s.rest.drop (s.rest.takeWhile fun t => p t.kind).length
      = s.rest.dropWhile fun t => p t.kind := by
    have h := List.takeWhile_append_dropWhile (p := fun t => p t.kind) (l := s.rest)
    conv => lhs; arg 2; rw [← h]
    exact List.drop_left
  have hrun : ∀ t ∈ s.rest.takeWhile fun t => p t.kind, p t.kind = true := by
    intro t ht
    exact List.all_eq_true.mp List.all_takeWhile t ht
  refine ⟨_, passed_drop (n := (s.rest.takeWhile fun t => p t.kind).length) ?_, ?_, ?_⟩
  · -- the run has no `eof`, so all its tokens are words
    intro t ht he
    rw [htake] at ht
    have := hrun t ht
    rw [he, hp] at this
    exact absurd this (by simp)
  · intro w hw
    rw [htake] at hw
    obtain ⟨t, ht, rfl⟩ := List.mem_map.mp hw
    exact hrun t ht
  · intro w hw
    show p w.kind = false
    change w ∈ (Token.words (s.rest.drop _)).head? at hw
    rw [hdrop] at hw
    cases hd : s.rest.dropWhile fun t => p t.kind with
    | nil => rw [hd] at hw; exact absurd hw (by simp [Token.words_nil])
    | cons t ts =>
      have hpt : p t.kind = false := by
        have := List.head?_dropWhile_not (fun t : Token => p t.kind) s.rest
        rw [hd] at this
        simpa using this
      rw [hd, Token.words_cons] at hw
      split at hw
      · exact absurd hw (by simp)
      · rw [List.head?_cons, Option.mem_some_iff] at hw
        rw [← hw]; exact hpt

/-! ## Gaps -/

/-- A list splits in one way only into words with a property and a rest that starts without it. -/
theorem gap_unique {P : Word → Prop} {gap gap' ws ws' : List Word}
    (h : gap ++ ws = gap' ++ ws') (hg : ∀ w ∈ gap, P w) (hg' : ∀ w ∈ gap', P w)
    (hw : ∀ w ∈ ws.head?, ¬ P w) (hw' : ∀ w ∈ ws'.head?, ¬ P w) : gap = gap' := by
  induction gap generalizing gap' with
  | nil =>
    -- a word that belongs to one gap cannot start the rest behind the other
    cases gap' with
    | nil => rfl
    | cons w' gap' =>
      rw [List.nil_append] at h
      rw [h] at hw
      exact absurd (hg' w' (List.mem_cons_self ..)) (hw w' rfl)
  | cons w gap ih =>
    cases gap' with
    | nil =>
      rw [List.nil_append] at h
      rw [← h] at hw'
      exact absurd (hg w (List.mem_cons_self ..)) (hw' w rfl)
    -- the first word belongs to both
    | cons w' gap' =>
      obtain ⟨rfl, h'⟩ := List.cons.inj h
      rw [ih h' (fun v hv => hg v (List.mem_cons_of_mem _ hv))
        fun v hv => hg' v (List.mem_cons_of_mem _ hv)]

/-- Skipping newlines passes newlines, all of them. -/
theorem passed_skipNewlines (s : State) :
    ∃ gap, Newlines gap ∧ Passed s s.skipNewlines gap ∧
      ∀ w ∈ s.skipNewlines.words.head?, w.kind ≠ .newline := by
  obtain ⟨gap, hp, hgap, hhead⟩ := passed_skipWhile (s := s) (p := (· == .newline)) rfl
  refine ⟨gap, fun w hw => eq_of_beq (hgap w hw), hp, fun w hw => ?_⟩
  exact ne_of_beq_false (hhead w hw)

/-- Skipping newlines passes exactly the gap in front of the next word. -/
theorem passed_skipNewlines_of_words (h : s.words = gap ++ ws) (hgap : Newlines gap)
    (hws : ∀ w ∈ ws.head?, w.kind ≠ .newline) : Passed s s.skipNewlines gap := by
  obtain ⟨gap', hgap', hp, hhead⟩ := passed_skipNewlines s
  have heq := hp.words
  rw [h] at heq
  rw [gap_unique (P := fun w => w.kind = .newline) heq hgap hgap' hws hhead]
  exact hp

/-- Skipping separators passes separators, all of them. -/
theorem passed_skipSeparators (s : State) :
    ∃ gap, Separators gap ∧ Passed s s.skipSeparators gap ∧
      ∀ w ∈ s.skipSeparators.words.head?, ¬ IsSeparator w := by
  obtain ⟨gap, hp, hgap, hhead⟩ :=
    passed_skipWhile (s := s) (p := fun k => k == .newline || k == .symbol .semicolon) rfl
  refine ⟨gap, fun w hw => ?_, hp, fun w hw hsep => ?_⟩
  · rcases (Bool.or_eq_true _ _).mp (hgap w hw) with h | h
    · exact Or.inl (eq_of_beq h)
    · exact Or.inr (eq_of_beq h)
  · have h := hhead w hw
    rcases hsep with hk | hk <;> rw [hk] at h <;> exact absurd h (by decide)

/-- Skipping separators passes exactly the gap in front of the next word. -/
theorem passed_skipSeparators_of_words (h : s.words = gap ++ ws) (hgap : Separators gap)
    (hws : ∀ w ∈ ws.head?, ¬ IsSeparator w) : Passed s s.skipSeparators gap := by
  obtain ⟨gap', hgap', hp, hhead⟩ := passed_skipSeparators s
  have heq := hp.words
  rw [h] at heq
  rw [gap_unique heq hgap hgap' hws hhead]
  exact hp

end State

/-! ## Running parsers

  A sequence of steps succeeds iff each of them does, from the state that the one before left. -/

variable {β γ : Type} {s s' : State}

theorem get_bind (f : State → Parse β) (s : State) : (get >>= f) s = f s s := rfl

/-- A sequence succeeds just if both parts do. -/
theorem bind_eq_ok {x : Parse β} {f : β → Parse γ} {c : γ} :
    (x >>= f) s = .ok c s' ↔ ∃ b s₁, x s = .ok b s₁ ∧ f b s₁ = .ok c s' := by
  show EStateM.bind x f s = .ok c s' ↔ _
  unfold EStateM.bind
  cases hx : x s with
  | ok b s₁ =>
    constructor
    · intro h; exact ⟨b, s₁, rfl, h⟩
    · rintro ⟨b', s₁', h1, h2⟩
      cases h1
      exact h2
  | error e s₁ =>
    constructor
    · intro h; exact absurd h (by simp)
    · rintro ⟨b', s₁', h1, -⟩; exact absurd h1 (by simp)

/-- A result alone leaves the state. -/
theorem pure_eq_ok {b c : β} (h : (pure b : Parse β) s = .ok c s') : c = b ∧ s' = s := by
  cases h
  exact ⟨rfl, rfl⟩

/-- A function of the result leaves the state. -/
theorem map_eq_ok {f : β → γ} {x : Parse β} {c : γ} (h : (f <$> x) s = .ok c s') :
    ∃ b, c = f b ∧ x s = .ok b s' := by
  change EStateM.map f x s = _ at h
  unfold EStateM.map at h
  cases hx : x s with
  | ok b s₁ =>
    rw [hx] at h
    cases h
    exact ⟨b, rfl, rfl⟩
  | error e s₁ => rw [hx] at h; exact absurd h (by nofun)

/-- Reading the symbol `x` passes one word, a symbol `x`. -/
theorem expect_eq_ok {x : Symbol} {expected : Expectation} {u : Unit}
    (h : expect x expected s = .ok u s') : ∃ w, w.kind = .symbol x ∧ Passed s s' [w] := by
  change (if s.atSymbol x then advance else unexpected expected) s = _ at h
  split at h
  · rename_i hx
    obtain ⟨w, ws, hw, hk⟩ := State.words_of_atSymbol hx
    cases h
    exact ⟨w, hk, State.passed_next hw⟩
  · exact absurd h (by nofun)

/-- Reading an identifier passes one word, an identifier with that text. -/
theorem identifier_eq_ok {expected : Expectation} {x : String}
    (h : identifier expected s = .ok x s') :
    ∃ w, w.kind = .identifier ∧ w.text = x ∧ Passed s s' [w] := by
  obtain ⟨s₀, s₁, h0, h⟩ := bind_eq_ok.mp h
  cases h0
  cases hr : s.rest with
  | nil => rw [hr] at h; exact absurd h (by nofun)
  | cons t ts =>
    rw [hr] at h
    change (if t.kind = .identifier then advance >>= fun _ => pure t.text
      else unexpected expected : Parse String) s = _ at h
    split at h
    · -- the word is an identifier, and one word is passed
      rename_i ht
      obtain ⟨u, s₁, h1, h2⟩ := bind_eq_ok.mp h
      obtain ⟨rfl, rfl⟩ := pure_eq_ok h2
      cases h1
      have hw : s.words = t.word :: Token.words ts := by
        show Token.words s.rest = _
        rw [hr, Token.words_cons, if_neg (by rw [ht]; simp)]
      exact ⟨t.word, ht, rfl, State.passed_next hw⟩
    · -- any other word is refused
      exact absurd h (by nofun)

/-! ## Levels of nesting -/

/-- The state with another nesting. -/
def State.atDepth (s : State) (depth : Nat) : State := { s with depth }

theorem State.atDepth_self (s : State) : s.atDepth s.depth = s := rfl

/-- What is passed does not depend on the depth. -/
theorem Passed.atDepth {ws : List Word} (h : Passed s s' ws) (d : Nat) :
    Passed (s.atDepth d) (s'.atDepth d) ws :=
  ⟨h.words, h.position, rfl, h.functions, h.loops⟩

/-- A state that went one level deeper, read some words and came back has read those words. -/
theorem Passed.leave {ws : List Word} (h : Passed (s.atDepth (s.depth + 1)) s' ws) :
    Passed s s'.leave ws where
  words := h.words
  position := h.position
  depth := by
    show s'.depth - 1 = s.depth
    rw [h.depth]
    exact Nat.add_sub_cancel ..
  functions := h.functions
  loops := h.loops

/-- Going a level deeper succeeds below the limit only. -/
theorem enter_eq_ok {u : Unit} (h : enter s = .ok u s') :
    s.depth < maxNesting ∧ s' = s.atDepth (s.depth + 1) := by
  change (if s.depth < maxNesting then modify fun s => { s with depth := s.depth + 1 }
    else tooDeep : Parse Unit) s = _ at h
  split at h
  · rename_i hd
    cases h
    exact ⟨hd, rfl⟩
  · exact absurd h (by nofun)

/-- A success is one of the part inside, tidied up. -/
theorem always_eq_ok {tidy : State → State} {p : Parse β} {b : β}
    (h : always tidy p s = .ok b s') : ∃ s₁, p s = .ok b s₁ ∧ s' = tidy s₁ := by
  unfold always at h
  cases hp : p s with
  | ok c s₁ =>
    rw [hp] at h
    cases h
    exact ⟨s₁, rfl, rfl⟩
  | error e s₁ =>
    rw [hp] at h
    exact absurd h (by nofun)

/-- A part read one level deeper comes back from there. -/
theorem nested_eq_ok {p : Parse β} {b : β} (h : nested p s = .ok b s') :
    s.depth < maxNesting ∧ ∃ s₁, p (s.atDepth (s.depth + 1)) = .ok b s₁ ∧ s' = s₁.leave := by
  obtain ⟨u, s₁, h1, h2⟩ := bind_eq_ok.mp h
  obtain ⟨hd, rfl⟩ := enter_eq_ok h1
  exact ⟨hd, always_eq_ok h2⟩

end Parse

end Scriptlet
