/-
  Lockstep: the parser on a token list, and on the same list with `later` tokens behind it.

  1. **In step** (`InStep`) — both runs end with the same result at the same place of the list, or
     with the same error.  Only an error about what comes next is reported at another place if it
     comes at the end of the list: there the two lists end differently.
  2. **Abreast** (`Abreast`) — the runs are in step, or the first one came to the end of its list
     where the input of the second one goes on.  From there the first run *halts* (`Halts`): it
     reads nothing more, and can only end well or fail because the input ends or is nested too deep.
  3. **Single steps** — each step keeps two runs abreast.  What the parser looks at next (`Peek`) is
     the same in both runs unless the first one is at its end, so a branch on it either leads both
     the same way or leaves a run that halts.
  4. **Twins** (`Twins`) — two computations that keep abreast from every place of the list.  Lists
     and chains of twins are twins, also where their bounds differ.
-/
import Scriptlet.Proofs.Grammar.Ranges

namespace Scriptlet

/-- Whether a fault is about the tokens read.  The other faults are about the end of the input and
    about the limit on nesting. -/
def ParseFault.isFinal : ParseFault → Bool
  | .unexpectedEnd _ | .nestingTooDeep => false
  | _ => true

/-- The faults that are about the tokens read, whatever follows them. -/
theorem ParseFault.isFinal_iff {cause : ParseFault} : cause.isFinal = true ↔
    (∀ expected, cause ≠ .unexpectedEnd expected) ∧ cause ≠ .nestingTooDeep := by
  cases cause <;> simp [isFinal]

/-- The list ends the input at once: it is empty, or starts with `eof`. -/
def EndsInput (later : List Token) : Prop := ∀ t ∈ later.head?, t.kind = .eof

/-- The place of the last token of a list, or the first place of all. -/
def Token.lastSpan (tokens : List Token) : Span := (tokens.getLast?.map Token.span).getD .first

/-- The place that comes next at the end of the tokens, with `later` behind them. -/
def Token.endSpan (tokens later : List Token) : Span :=
  (later.head?.map Token.span).getD (Token.lastSpan tokens)

namespace Parse

variable {β γ : Type} {tokens later : List Token} {s s₁ : State}

/-! ## More tokens behind -/

/-- The state with `later` tokens behind those that are left. -/
def State.extend (s : State) (later : List Token) : State := { s with rest := s.rest ++ later }

/-- No token is left. -/
def State.Exhausted (s : State) : Prop := s.rest = []

/-- Parsing stands at a place of the token list, and knows the last token if it is at the end. -/
structure Stands (tokens : List Token) (s : State) : Prop where
  place : At tokens s
  last : s.Exhausted → s.lastSpan = Token.lastSpan tokens

namespace Stands

/-- Parsing starts at the first token. -/
theorem initial (hne : tokens ≠ []) : Stands tokens (.initial tokens) :=
  ⟨.initial hne, fun hend => absurd hend hne⟩

/-- Only the three fields that are about the list count. -/
theorem congr (h : Stands tokens s) (hrest : s₁.rest = s.rest)
    (hposition : s₁.position = s.position) (hlast : s₁.lastSpan = s.lastSpan) :
    Stands tokens s₁ := by
  refine ⟨h.place.congr hrest hposition hlast, fun hend => ?_⟩
  rw [hlast]
  exact h.last (hrest.symm.trans hend)

/-- The position counts the tokens that are not left. -/
theorem length (h : Stands tokens s) : s.rest.length + s.position = tokens.length := by
  have hposition := h.place.position
  rw [h.place.rest, List.length_drop]
  omega

/-- A token was read between two places. -/
theorem rest_ne_nil (h : Stands tokens s) (h₁ : Stands tokens s₁) (hlt : s.position < s₁.position) :
    s.rest ≠ [] := by
  intro hend
  have hlength := h.length
  have hle := h₁.place.position
  rw [hend, List.length_nil] at hlength
  omega

/-- After the last token its place is known. -/
theorem drop (h : Stands tokens s) (n : Nat) : Stands tokens (s.drop n) := by
  refine ⟨h.place.drop n, fun hend => ?_⟩
  have hall : s.rest.take n = s.rest := List.take_of_length_le (List.drop_eq_nil_iff.mp hend)
  show ((s.rest.take n).getLast?.map Token.span).getD s.lastSpan = Token.lastSpan tokens
  rw [hall]
  -- nothing was left before, so the last token was known
  by_cases hrest : s.rest = []
  · rw [hrest]
    exact h.last hrest
  · -- something was left, and it ended with the last token
    have hlength : 0 < s.rest.length := List.length_pos_iff.mpr hrest
    have hlt : s.position < tokens.length := by
      have := h.length
      omega
    have hlast : s.rest.getLast? = tokens.getLast? := by
      rw [h.place.rest, List.getLast?_drop, if_neg (by omega)]
    rw [hlast, Token.lastSpan]
    obtain ⟨t, ht⟩ := Option.isSome_iff_exists.mp (List.getLast?_isSome.mpr hrest)
    rw [← hlast, ht]
    rfl

end Stands

namespace State

theorem skipWhile_of_exhausted (h : s.Exhausted) (p : TokenKind → Bool) :
    (s.skipWhile p).Exhausted := by
  show s.rest.drop _ = []
  rw [show s.rest = [] from h, List.drop_nil]

theorem kind?_of_exhausted (h : s.Exhausted) : s.kind? = none := by
  rw [kind?, show s.rest = [] from h]
  rfl

theorem atSymbol_of_exhausted (h : s.Exhausted) (x : Symbol) : s.atSymbol x = false := by
  rw [atSymbol, kind?_of_exhausted h]
  rfl

theorem atKeyword_of_exhausted (h : s.Exhausted) (k : Keyword) : s.atKeyword k = false := by
  rw [atKeyword, kind?_of_exhausted h]
  rfl

theorem operator?_of_exhausted (h : s.Exhausted) (prec : Precedence) : s.operator? prec = none := by
  rw [operator?, kind?_of_exhausted h]

theorem unaryOp?_of_exhausted (h : s.Exhausted) : s.unaryOp? = none := by
  rw [unaryOp?, kind?_of_exhausted h]

theorem position_extend : (s.extend later).position = s.position := rfl

/-- As long as a token is left, more tokens behind do not change what comes next. -/
theorem kind?_extend (h : s.rest ≠ []) : (s.extend later).kind? = s.kind? := by
  obtain ⟨t, ts, hrest⟩ := List.exists_cons_of_ne_nil h
  simp only [kind?, extend, hrest, List.cons_append, List.head?_cons]

/-- Nor do they change what is dropped. -/
theorem drop_extend {n : Nat} (h : n ≤ s.rest.length) :
    (s.extend later).drop n = (s.drop n).extend later := by
  simp only [drop, extend, List.drop_append_of_le_length h, List.take_append_of_le_length h]

theorem next_extend (h : s.rest ≠ []) : (s.extend later).next = s.next.extend later :=
  drop_extend (List.length_pos_iff.mpr h)

/-- A run of tokens ends where it ended before, if a token follows it or `later` ends the input. -/
theorem skipWhile_extend {p : TokenKind → Bool} (hp : p .eof = false)
    (h : (s.skipWhile p).rest ≠ [] ∨ EndsInput later) :
    (s.extend later).skipWhile p = (s.skipWhile p).extend later := by
  -- the run itself ends where it did
  have hrun : (s.rest ++ later).takeWhile (fun t => p t.kind)
      = s.rest.takeWhile fun t => p t.kind := by
    rw [List.takeWhile_append]
    split
    · next hall =>
      -- all tokens left were of the kind, and those that follow are `eof`
      rcases h with hrest | hending
      · exact absurd (List.drop_eq_nil_of_le (Nat.le_of_eq hall.symm)) hrest
      · have hnone : later.takeWhile (fun t => p t.kind) = [] := by
          cases later with
          | nil => rfl
          | cons t ts =>
            have ht : t.kind = .eof := hending t rfl
            rw [List.takeWhile_cons, ht, hp]
            rfl
        rw [hnone, List.append_nil]
        exact ((List.takeWhile_prefix _).eq_of_length hall).symm
    · rfl
  show (s.extend later).drop ((s.rest ++ later).takeWhile _).length = _
  rw [hrun]
  exact drop_extend (List.takeWhile_prefix _).length_le

theorem span_extend (h : s.rest ≠ []) : (s.extend later).span = s.span := by
  obtain ⟨t, ts, hrest⟩ := List.exists_cons_of_ne_nil h
  simp only [span, extend, hrest, List.cons_append]

/-- At the end the place is that of the token that follows, if one does. -/
theorem span_extend_of_exhausted (hs : Stands tokens s) (h : s.Exhausted) :
    (s.extend later).span = Token.endSpan tokens later := by
  have hlast := hs.last h
  unfold span extend
  rw [show s.rest = [] from h, List.nil_append]
  cases later with
  | nil => exact hlast
  | cons t ts => rfl

theorem span_of_exhausted (hs : Stands tokens s) (h : s.Exhausted) :
    s.span = Token.lastSpan tokens := by
  rw [← hs.last h, span, show s.rest = [] from h]

end State

/-! ## What comes next -/

/-- A test of what comes next does not see `later` tokens, unless it is made at the end and they go
    on with the input. -/
def Peek (test : State → γ) : Prop :=
  ∀ s later, s.rest ≠ [] ∨ EndsInput later → test (s.extend later) = test s

/-- A test of the kind that comes next, and for which `eof` is as good as nothing. -/
theorem peek_of_kind? {test : State → γ} (hsame : ∀ s s', s.kind? = s'.kind? → test s = test s')
    (heof : ∀ s s', s.kind? = some .eof → s'.kind? = none → test s = test s') : Peek test := by
  intro s later hsight
  by_cases hend : s.Exhausted
  · have hnone : s.kind? = none := State.kind?_of_exhausted hend
    cases later with
    | nil => exact hsame _ _ (by rw [State.extend, List.append_nil])
    | cons t ts =>
      have ht : t.kind = .eof := hsight.resolve_left (fun hne => hne hend) t rfl
      refine heof _ _ ?_ hnone
      rw [State.kind?, State.extend, show s.rest = [] from hend, List.nil_append, List.head?_cons,
        Option.map_some, ht]
  · exact hsame _ _ (State.kind?_extend hend)

theorem peek_atSymbol (x : Symbol) : Peek (·.atSymbol x) := by
  refine peek_of_kind? (fun s s' h => ?_) fun s s' h h' => ?_
  · simp only [State.atSymbol, h]
  · simp only [State.atSymbol, h, h']
    rfl

theorem peek_atKeyword (k : Keyword) : Peek (·.atKeyword k) := by
  refine peek_of_kind? (fun s s' h => ?_) fun s s' h h' => ?_
  · simp only [State.atKeyword, h]
  · simp only [State.atKeyword, h, h']
    rfl

theorem peek_atEnd : Peek State.atEnd := by
  refine peek_of_kind? (fun s s' h => ?_) fun s s' h h' => ?_
  · rw [State.atEnd, State.atEnd, h]
  · rw [State.atEnd, State.atEnd, h, h']

theorem peek_atSeparator (inBlock : Bool) : Peek (·.atSeparator inBlock) := by
  refine peek_of_kind? (fun s s' h => ?_) fun s s' h h' => ?_
  · simp only [State.atSeparator, h]
  · simp only [State.atSeparator, h, h']

/-- Where statements stop: at the end, or at the brace that closes the block. -/
theorem peek_atStop (inBlock : Bool) :
    Peek fun s => s.atEnd || (inBlock && s.atSymbol .rightBrace) := by
  intro s later hsight
  have hend : (s.extend later).atEnd = s.atEnd := peek_atEnd s later hsight
  have hbrace : (s.extend later).atSymbol .rightBrace = s.atSymbol .rightBrace :=
    peek_atSymbol .rightBrace s later hsight
  simp only [hend, hbrace]

/-- At `eof` stands no operator, as at the end of the tokens. -/
theorem peek_operator? (prec : Precedence) : Peek (·.operator? prec) := by
  refine peek_of_kind? (fun s s' h => ?_) fun s s' h h' => ?_
  · simp only [State.operator?, h]
  · simp only [State.operator?, h, h']

theorem peek_unaryOp? : Peek State.unaryOp? := by
  refine peek_of_kind? (fun s s' h => ?_) fun s s' h h' => ?_
  · rw [State.unaryOp?, State.unaryOp?, h]
  · rw [State.unaryOp?, State.unaryOp?, h, h']

/-- At `eof` stands no operand, as at the end of the tokens. -/
theorem peek_leaf? : Peek fun s => s.rest.head?.bind leaf? := by
  intro s later hsight
  cases hrest : s.rest with
  | cons t ts => simp only [State.extend, hrest, List.cons_append, List.head?_cons]
  | nil =>
    simp only [State.extend, hrest, List.nil_append, List.head?_nil, Option.bind_none]
    cases later with
    | nil => rfl
    | cons t ts =>
      have ht : t.kind = .eof := hsight.resolve_left (fun hne => hne hrest) t rfl
      rw [List.head?_cons, Option.bind_some, leaf?, ht]

/-! ## Two results -/

/-- How an error of the first run, which stops in the state `s`, is reported by the second one. -/
inductive SameError (tokens later : List Token) (s : State) : ParseError → ParseError → Prop
  /-- The fault is about the tokens read. -/
  | final {e : ParseError} (h : e.cause.isFinal = true) : SameError tokens later s e e
  /-- A token is left: the nesting is too deep there, or the list holds the `eof` that ends it. -/
  | inside {e : ParseError} (hrest : s.rest ≠ [])
      (h : e.cause = .nestingTooDeep ∨ ∃ t ∈ tokens, t.kind = .eof) : SameError tokens later s e e
  /-- No token is left. -/
  | atEnd {cause : ParseFault} (hend : s.Exhausted) (hcause : cause.isFinal = false) :
      SameError tokens later s ⟨cause, Token.lastSpan tokens⟩ ⟨cause, Token.endSpan tokens later⟩

/-- Two runs end alike. -/
inductive InStep (tokens later : List Token) :
    EStateM.Result ParseError State β → EStateM.Result ParseError State β → Prop
  | ok {b : β} {s : State} (hs : Stands tokens s) :
      InStep tokens later (.ok b s) (.ok b (s.extend later))
  | error {e e' : ParseError} {s s' : State} (h : SameError tokens later s e e') :
      InStep tokens later (.error e s) (.error e' s')

/-- A run that ends well ends in such a state, and one that fails does so because the input ends or
    is nested too deep. -/
def Halts (Done : State → Prop) : EStateM.Result ParseError State β → Prop
  | .ok _ s => Done s
  | .error e _ => e.cause.isFinal = false

/-- At the end of the tokens a computation halts. -/
def Idles (Done : State → Prop) (p : Parse β) : Prop := ∀ s, s.Exhausted → Halts Done (p s)

/-- Two runs are in step, or the first one halts where the input of the second one goes on. -/
def Abreast (tokens later : List Token) (Done : State → Prop)
    (r r' : EStateM.Result ParseError State β) : Prop :=
  InStep tokens later r r' ∨ ¬EndsInput later ∧ Halts Done r

variable {Done Done₁ : State → Prop} {p p' : Parse β} {f f' : β → Parse γ}
variable {R : Nat → Nat → β → Prop}

/-- A run that halts in such a state halts in any wider set of them. -/
theorem Halts.mono {Done' : State → Prop} {r : EStateM.Result ParseError State β}
    (h : Halts Done r) (hdone : ∀ s, Done s → Done' s) : Halts Done' r := by
  cases r with
  | ok b s => exact hdone s h
  | error e s => exact h

/-- A run halts if both of its parts do. -/
theorem Halts.bind (h : Halts Done₁ (p s)) (hnext : ∀ b s₁, Done₁ s₁ → Halts Done (f b s₁)) :
    Halts Done ((p >>= f) s) := by
  show Halts Done (EStateM.bind p f s)
  unfold EStateM.bind
  cases hp : p s with
  | ok b s₁ =>
    rw [hp] at h
    exact hnext b s₁ h
  | error e s₁ =>
    rw [hp] at h
    exact h

theorem Abreast.mono {Done' : State → Prop} {r r' : EStateM.Result ParseError State β}
    (h : Abreast tokens later Done r r') (hdone : ∀ s, Done s → Done' s) :
    Abreast tokens later Done' r r' := h.imp_right fun ⟨hgoes, hhalts⟩ => ⟨hgoes, hhalts.mono hdone⟩

/-- **One computation after the other.**  If the first one halts, so does the second. -/
theorem Abreast.bind {s' : State} (h : Abreast tokens later Done₁ (p s) (p' s'))
    (hnext : ∀ b s₁, Stands tokens s₁ → p s = .ok b s₁ →
      Abreast tokens later Done (f b s₁) (f' b (s₁.extend later)))
    (hdone : ∀ b s₁, Done₁ s₁ → Halts Done (f b s₁)) :
    Abreast tokens later Done ((p >>= f) s) ((p' >>= f') s') := by
  rcases h with hstep | ⟨hgoes, hhalts⟩
  · show Abreast tokens later Done (EStateM.bind p f s) (EStateM.bind p' f' s')
    unfold EStateM.bind
    generalize p s = r at hstep hnext
    generalize p' s' = r' at hstep
    cases hstep with
    | ok hs => exact hnext _ _ hs rfl
    | error herror => exact .inl (.error herror)
  · exact .inr ⟨hgoes, hhalts.bind hdone⟩

/-- What comes next is the same for both runs, unless the first one is at its end. -/
theorem Abreast.of_sight {r r' : EStateM.Result ParseError State β}
    (hend : s.Exhausted → Halts Done r)
    (h : s.rest ≠ [] ∨ EndsInput later → Abreast tokens later Done r r') :
    Abreast tokens later Done r r' := by
  by_cases hsight : s.rest ≠ [] ∨ EndsInput later
  · exact h hsight
  · obtain ⟨hrest, hgoes⟩ := not_or.mp hsight
    exact .inr ⟨hgoes, hend (Classical.not_not.mp hrest)⟩

/-- **A branch on what comes next.** -/
theorem Abreast.ite {test : State → Bool} (htest : Peek test) {p₁ p₁' p₂ p₂' : Parse β}
    (hend : s.Exhausted → Halts Done ((if test s then p₁ else p₂) s))
    (hyes : test s = true → Abreast tokens later Done (p₁ s) (p₁' (s.extend later)))
    (hno : test s = false → Abreast tokens later Done (p₂ s) (p₂' (s.extend later))) :
    Abreast tokens later Done ((if test s then p₁ else p₂) s)
      ((if test (s.extend later) then p₁' else p₂') (s.extend later)) := by
  refine .of_sight hend fun hsight => ?_
  rw [htest s later hsight]
  cases htest : test s with
  | true => exact hyes htest
  | false => exact hno htest

/-! ## Single steps -/

theorem abreast_pure (hs : Stands tokens s) (b : β) :
    Abreast tokens later Done ((pure b : Parse β) s) ((pure b : Parse β) (s.extend later)) :=
  .inl (.ok hs)

theorem abreast_throw {e : ParseError} (h : e.cause.isFinal = true) (s s' : State) :
    Abreast tokens later Done ((throw e : Parse β) s) ((throw e : Parse β) s') :=
  .inl (.error (.final h))

/-- Too deep a nesting is reported at the same token, or at the end of either input. -/
theorem abreast_tooDeep (hs : Stands tokens s) :
    Abreast tokens later Done ((tooDeep : Parse β) s) ((tooDeep : Parse β) (s.extend later)) := by
  refine .inl (.error ?_)
  by_cases hend : s.Exhausted
  · rw [State.span_of_exhausted hs hend, State.span_extend_of_exhausted hs hend]
    exact .atEnd hend rfl
  · rw [State.span_extend hend]
    exact .inside hend (.inl rfl)

theorem State.atEnd_of_exhausted (h : s.Exhausted) : s.atEnd = true := by
  rw [atEnd, kind?_of_exhausted h]

/-- At the end of the input every expectation is disappointed in the same way. -/
theorem State.unexpected_of_atEnd (h : s.atEnd = true) (expected : Expectation) :
    s.unexpected expected = ⟨.unexpectedEnd expected, s.span⟩ := by
  unfold State.unexpected State.span
  cases hrest : s.rest with
  | nil => rfl
  | cons t ts =>
    have hkind : s.kind? = some t.kind := by rw [kind?, hrest]; rfl
    rw [atEnd, hkind] at h
    cases hk : t.kind with
    | eof => simp only [hk]
    | _ => rw [hk] at h; exact absurd h (by simp)

theorem halts_unexpected (h : s.Exhausted) (expected : Expectation) :
    Halts Done ((unexpected expected : Parse β) s) := by
  show (s.unexpected expected).cause.isFinal = false
  rw [State.unexpected_of_atEnd (State.atEnd_of_exhausted h)]
  rfl

/-- An unexpected token is the same for both, or both are at their end. -/
theorem abreast_unexpected (hs : Stands tokens s) (expected : Expectation) :
    Abreast tokens later Done ((unexpected expected : Parse β) s)
      ((unexpected expected : Parse β) (s.extend later)) := by
  refine .of_sight (fun hend => halts_unexpected hend expected) fun hsight => .inl (.error ?_)
  show SameError tokens later s (s.unexpected expected) ((s.extend later).unexpected expected)
  -- both are at their end, and report it at their own place
  by_cases hend : s.Exhausted
  · have hfirst := State.atEnd_of_exhausted hend
    have hsecond : (s.extend later).atEnd = true := (peek_atEnd s later hsight).trans hfirst
    rw [State.unexpected_of_atEnd hfirst, State.unexpected_of_atEnd hsecond,
      State.span_of_exhausted hs hend, State.span_extend_of_exhausted hs hend]
    exact .atEnd hend rfl
  · -- both stand at the same token
    obtain ⟨t, ts, hrest⟩ := List.exists_cons_of_ne_nil hend
    have hsame : (s.extend later).unexpected expected = s.unexpected expected := by
      simp only [State.unexpected, State.extend, hrest, List.cons_append]
    have ht : t ∈ tokens := List.mem_of_mem_drop (hs.place.rest ▸ hrest ▸ List.mem_cons_self)
    rw [hsame]
    -- at `eof` the input ends, anywhere else the token is not the expected one
    by_cases heof : t.kind = .eof
    · exact .inside hend (.inr ⟨t, ht, heof⟩)
    · refine .final ?_
      unfold State.unexpected
      rw [hrest]
      dsimp only
      split
      · next h => exact absurd h heof
      · rfl
      · rfl

/-- Reading the next token, of which there is one. -/
theorem abreast_advance {f f' : Unit → Parse γ} (hs : Stands tokens s) (hne : s.rest ≠ [])
    (hnext : ∀ s₁, Stands tokens s₁ → s₁.position = s.position + 1 →
      Abreast tokens later Done (f () s₁) (f' () (s₁.extend later))) :
    Abreast tokens later Done ((advance >>= f) s) ((advance >>= f') (s.extend later)) := by
  show Abreast tokens later Done (f () s.next) (f' () (s.extend later).next)
  rw [State.next_extend hne]
  exact hnext s.next (hs.drop 1) (At.position_next hne)

/-- Reading a run of tokens.  At its end the first run may have come to the end of its tokens. -/
theorem abreast_skipWhile {f f' : Unit → Parse γ} {run : TokenKind → Bool} (hrun : run .eof = false)
    (hs : Stands tokens s)
    (hnext : ∀ s₁, Stands tokens s₁ → s.position ≤ s₁.position →
      Abreast tokens later Done (f () s₁) (f' () (s₁.extend later)))
    (hdone : ∀ s₁, s₁.Exhausted → Halts Done (f () s₁)) :
    Abreast tokens later Done ((modify (·.skipWhile run) >>= f) s)
      ((modify (·.skipWhile run) >>= f') (s.extend later)) := by
  show Abreast tokens later Done (f () (s.skipWhile run)) (f' () ((s.extend later).skipWhile run))
  refine .of_sight (fun hend => hdone _ hend) fun hsight => ?_
  rw [State.skipWhile_extend hrun hsight]
  exact hnext _ (hs.drop _) (Nat.le_add_right ..)

/-- Reading newlines. -/
theorem abreast_skipNewlines {f f' : Unit → Parse γ} (hs : Stands tokens s)
    (hnext : ∀ s₁, Stands tokens s₁ → s.position ≤ s₁.position →
      Abreast tokens later Done (f () s₁) (f' () (s₁.extend later)))
    (hdone : ∀ s₁, s₁.Exhausted → Halts Done (f () s₁)) :
    Abreast tokens later Done ((skipNewlines >>= f) s) ((skipNewlines >>= f') (s.extend later)) :=
  abreast_skipWhile rfl hs hnext hdone

/-- Reading newlines and semicolons. -/
theorem abreast_skipSeparators {f f' : Unit → Parse γ} (hs : Stands tokens s)
    (hnext : ∀ s₁, Stands tokens s₁ → s.position ≤ s₁.position →
      Abreast tokens later Done (f () s₁) (f' () (s₁.extend later)))
    (hdone : ∀ s₁, s₁.Exhausted → Halts Done (f () s₁)) :
    Abreast tokens later Done ((skipSeparators >>= f) s)
      ((skipSeparators >>= f') (s.extend later)) :=
  abreast_skipWhile rfl hs hnext hdone

/-- Going one level deeper. -/
theorem abreast_enter {f f' : Unit → Parse γ} (hs : Stands tokens s)
    (hnext : ∀ depth, Stands tokens (s.atDepth depth) →
      Abreast tokens later Done (f () (s.atDepth depth)) (f' () ((s.atDepth depth).extend later))) :
    Abreast tokens later Done ((enter >>= f) s) ((enter >>= f') (s.extend later)) := by
  rw [enter, bind_assoc, bind_assoc, get_bind, get_bind]
  by_cases hdepth : s.depth < maxNesting
  · rw [if_pos hdepth, if_pos (show (s.extend later).depth < maxNesting from hdepth)]
    exact hnext (s.depth + 1) (hs.congr rfl rfl rfl)
  · rw [if_neg hdepth, if_neg (show ¬(s.extend later).depth < maxNesting from hdepth)]
    exact abreast_tooDeep hs

/-- Going on from another state. -/
theorem abreast_set {f f' : PUnit → Parse γ} {ahead : State}
    (h : Abreast tokens later Done (f ⟨⟩ ahead) (f' ⟨⟩ (ahead.extend later))) :
    Abreast tokens later Done ((set ahead >>= f) s)
      ((set (ahead.extend later) >>= f') (s.extend later)) := h

/-- Tidying up does not change how a run halts. -/
theorem halts_always {tidy : State → State} (h : Halts Done (p s))
    (htidy : ∀ s, Done s → Done (tidy s)) : Halts Done (always tidy p s) := by
  unfold always
  cases hp : p s with
  | ok b s₁ =>
    rw [hp] at h
    exact htidy s₁ h
  | error e s₁ =>
    rw [hp] at h
    exact h

/-- A change of the counters afterwards. -/
theorem abreast_always {tidy : State → State} {s' : State}
    (h : Abreast tokens later Done (p s) (p' s'))
    (htidy : ∀ s, (tidy s).rest = s.rest ∧ (tidy s).position = s.position ∧
      (tidy s).lastSpan = s.lastSpan ∧ tidy (s.extend later) = (tidy s).extend later)
    (hdone : ∀ s, Done s → Done (tidy s)) :
    Abreast tokens later Done (always tidy p s) (always tidy p' s') := by
  -- both runs ended alike, or the first one halted
  rcases h with hstep | ⟨hgoes, hhalts⟩
  · unfold always
    generalize p s = r at hstep
    generalize p' s' = r' at hstep
    cases hstep with
    | @ok b s₁ hs =>
      obtain ⟨hrest, hposition, hlast, hextend⟩ := htidy s₁
      dsimp only
      rw [hextend]
      exact .inl (.ok (hs.congr hrest hposition hlast))
    | @error e e' s₁ s₁' herror =>
      refine .inl (.error ?_)
      obtain ⟨hrest, -⟩ := htidy s₁
      -- the change leaves the place as it was
      cases herror with
      | final h => exact .final h
      | inside hne h => exact .inside (by rwa [hrest]) h
      | atEnd hend hcause => exact .atEnd (hrest.trans hend) hcause
  · exact .inr ⟨hgoes, halts_always hhalts hdone⟩

/-! ## Twins

  The second run calls every rule with a bound of its own.  As long as both bounds are large enough
  for the tokens left, the two rules are twins: nothing shows which of them runs. -/

/-- Two computations that keep abreast from every place of the list with less than `room` tokens
    left.  The first one is known by what it tells, and halts if it starts at the end. -/
structure Twins (tokens later : List Token) (room : Nat) (Done : State → Prop)
    (R : Nat → Nat → β → Prop) (p p' : Parse β) : Prop where
  tells : Tells tokens p R
  idles : Idles Done p
  abreast : ∀ s, Stands tokens s → tokens.length < s.position + room →
    Abreast tokens later Done (p s) (p' (s.extend later))

/-- A computation that never halts in a state: it reads on, or fails. -/
def Never (_ : State) : Prop := False

/-- One level deeper a computation halts as well. -/
theorem nested_idles (h : Idles Done p) (hleave : ∀ s, Done s → Done s.leave) :
    Idles Done (nested p) := by
  intro s hend
  rw [nested, enter, bind_assoc, get_bind]
  split
  · exact halts_always (h (s.atDepth (s.depth + 1)) hend) hleave
  · rfl

namespace Twins

variable {room : Nat}

/-- Without room there is no place to start from. -/
theorem vacant (htells : Tells tokens p R) (hidles : Idles Done p) :
    Twins tokens later 0 Done R p p' :=
  ⟨htells, hidles, fun _ hs hroom => absurd hs.place.position (by omega)⟩

/-- What follows twins. -/
theorem bind (h : Twins tokens later room Done₁ R p p') (hs : Stands tokens s)
    (hroom : tokens.length < s.position + room)
    (hnext : ∀ b s₁, Stands tokens s₁ → R s.position s₁.position b →
      Abreast tokens later Done (f b s₁) (f' b (s₁.extend later)))
    (hdone : ∀ b s₁, Done₁ s₁ → Halts Done (f b s₁)) :
    Abreast tokens later Done ((p >>= f) s) ((p' >>= f') (s.extend later)) := by
  refine (h.abreast s hs hroom).bind (fun b s₁ hs₁ hok => hnext b s₁ hs₁ ?_) hdone
  have htold := h.tells s hs.place
  rw [hok] at htold
  exact htold.2

/-- Twins one level deeper. -/
theorem nested (h : Twins tokens later room Done R p p')
    (hleave : ∀ s, Done s → Done s.leave) :
    Twins tokens later room Done R (nested p) (nested p') := by
  refine ⟨h.tells.nested, nested_idles h.idles hleave, fun s hs hroom => ?_⟩
  refine abreast_enter hs fun depth hdepth => ?_
  exact abreast_always (h.abreast _ hdepth hroom) (fun _ => ⟨rfl, rfl, rfl, rfl⟩) hleave

end Twins

/-- What follows a computation that never halts in a state is not run. -/
theorem Halts.fails (h : Halts Never (p s)) : Halts Done ((p >>= f) s) :=
  h.bind fun _ _ => False.elim

/-- At the end no symbol is found. -/
theorem halts_expect (h : s.Exhausted) (x : Symbol) (expected : Expectation) :
    Halts Done (expect x expected s) := by
  rw [expect, get_bind, State.atSymbol_of_exhausted h]
  exact halts_unexpected h expected

/-- Reading a symbol. -/
theorem abreast_expect {f f' : Unit → Parse γ} (hs : Stands tokens s) (x : Symbol)
    (expected : Expectation)
    (hnext : ∀ s₁, Stands tokens s₁ → s₁.position = s.position + 1 →
      Abreast tokens later Done (f () s₁) (f' () (s₁.extend later))) :
    Abreast tokens later Done ((expect x expected >>= f) s)
      ((expect x expected >>= f') (s.extend later)) := by
  -- the symbol is read, or it is missing for both
  have hread : Abreast tokens later Never (expect x expected s)
      (expect x expected (s.extend later)) := by
    rw [expect, get_bind, get_bind]
    refine .ite (peek_atSymbol x) (fun h => ?_) (fun hx => ?_) fun _ =>
      abreast_unexpected hs expected
    · rw [State.atSymbol_of_exhausted h]
      exact halts_unexpected h expected
    · exact abreast_advance hs (rest_ne_nil_of_atSymbol hx) fun s₁ hs₁ _ =>
        abreast_pure hs₁ ()
  -- where it is read, the place is one further
  refine hread.bind (fun _ s₁ hs₁ hok => hnext s₁ hs₁ ?_) fun _ _ => False.elim
  have htold := tells_expect x expected s hs.place
  rw [hok] at htold
  exact htold.2

theorem halts_identifier (h : s.Exhausted) (expected : Expectation) :
    Halts Done (identifier expected s) := by
  rw [identifier, get_bind, show s.rest = [] from h]
  exact halts_unexpected h expected

/-- Reading an identifier. -/
theorem abreast_identifier {f f' : String → Parse γ} (hs : Stands tokens s) (expected : Expectation)
    (hnext : ∀ x s₁, Stands tokens s₁ → s₁.position = s.position + 1 →
      Abreast tokens later Done (f x s₁) (f' x (s₁.extend later))) :
    Abreast tokens later Done ((identifier expected >>= f) s)
      ((identifier expected >>= f') (s.extend later)) := by
  have hread : Abreast tokens later Never (identifier expected s)
      (identifier expected (s.extend later)) := by
    refine .of_sight (fun h => halts_identifier h expected) fun hsight => ?_
    cases hrest : s.rest with
    | nil =>
      -- neither run has an identifier in front of it
      have hfirst : identifier expected s = unexpected expected s := by
        rw [identifier, get_bind, hrest]
      have hsecond :
          identifier expected (s.extend later) = unexpected expected (s.extend later) := by
        rw [identifier, get_bind, State.extend, hrest, List.nil_append]
        cases later with
        | nil => rfl
        | cons t ts =>
          have ht : t.kind = .eof := hsight.resolve_left (fun hne => hne hrest) t rfl
          dsimp only
          rw [if_neg (by rw [ht]; simp)]
      rw [hfirst, hsecond]
      exact abreast_unexpected hs expected
    | cons t ts =>
      have hne : s.rest ≠ [] := by
        rw [hrest]
        exact List.cons_ne_nil t ts
      have hrest' : (s.extend later).rest = t :: (ts ++ later) := congrArg (· ++ later) hrest
      rw [identifier, get_bind, get_bind, hrest, hrest']
      dsimp only
      split
      · exact abreast_advance hs hne fun s₁ hs₁ _ => abreast_pure hs₁ t.text
      · exact abreast_unexpected hs expected
  refine hread.bind (fun x s₁ hs₁ hok => hnext x s₁ hs₁ ?_) fun _ _ => False.elim
  have htold := tells_identifier expected s hs.place
  rw [hok] at htold
  exact htold.2

/-! ## Lists and chains -/

section Lists

variable {room : Nat} {item item' : List β → Parse β}

theorem halts_skipNewlines {f : Unit → Parse γ} (h : s.Exhausted)
    (hnext : ∀ s₁, s₁.Exhausted → Halts Done (f () s₁)) : Halts Done ((skipNewlines >>= f) s) :=
  hnext _ (State.skipWhile_of_exhausted h _)

/-- After an item at the end of the tokens no other one follows. -/
theorem halts_noComma {p : Parse (List β)} {xs : List β} (h : s.Exhausted) :
    Halts State.Exhausted
      ((do if (← get).atSymbol .comma then p else pure xs : Parse (List β)) s) := by
  rw [get_bind, State.atSymbol_of_exhausted h]
  exact h

/-- At the end a list halts with its first item. -/
theorem commaList_idles (hitem : ∀ before, Idles State.Exhausted (item before)) (n : Nat)
    (before : List β) : Idles State.Exhausted (commaList item n before) := by
  intro s h
  cases n with
  | zero => rfl
  | succ n =>
    rw [commaList]
    exact (hitem before s h).bind fun x s₁ h₁ =>
      halts_skipNewlines h₁ fun s₂ h₂ => halts_noComma h₂

/-- **Lists are read in step**: each item moves on, so neither bound is reached. -/
theorem commaList_abreast
    (hitem : ∀ before, Twins tokens later room State.Exhausted R (item before) (item' before))
    (hle : ∀ lo hi b, R lo hi b → lo ≤ hi) (n n' : Nat) (before : List β) (s : State)
    (hs : Stands tokens s) (hroom : tokens.length < s.position + room)
    (hn : tokens.length < s.position + n) (hn' : tokens.length < s.position + n') :
    Abreast tokens later State.Exhausted (commaList item n before s)
      (commaList item' n' before (s.extend later)) := by
  induction n generalizing n' before s with
  | zero => exact absurd hs.place.position (by omega)
  | succ n ih =>
    obtain ⟨n', rfl⟩ : ∃ m, n' = m + 1 := ⟨n' - 1, by have := hs.place.position; omega⟩
    rw [commaList, commaList]
    refine (hitem before).bind hs hroom (fun x s₁ hs₁ hx => ?_) fun x s₁ h₁ =>
      halts_skipNewlines h₁ fun s₂ h₂ => halts_noComma h₂
    have hle₁ := hle _ _ _ hx
    refine abreast_skipNewlines hs₁ (fun s₂ hs₂ hle₂ => ?_) fun s₂ h₂ => halts_noComma h₂
    rw [get_bind, get_bind]
    refine .ite (peek_atSymbol .comma) halts_noComma (fun hcomma => ?_) fun _ => abreast_pure hs₂ _
    -- the comma is one token less for the items after it
    refine abreast_advance hs₂ (rest_ne_nil_of_atSymbol hcomma) fun s₃ hs₃ hpos₃ => ?_
    refine abreast_skipNewlines hs₃ (fun s₄ hs₄ hle₄ => ?_) fun s₄ h₄ =>
      commaList_idles (fun before => (hitem before).idles) n _ s₄ h₄
    exact ih n' (before ++ [x]) s₄ hs₄ (by omega) (by omega) (by omega)

/-- What follows an opening parenthesis: at the end of the tokens the closing one is missing. -/
theorem twins_parenList
    (hitem : ∀ before, Twins tokens later room State.Exhausted R (item before) (item' before))
    (hR : Widens R) (hle : ∀ lo hi b, R lo hi b → lo ≤ hi) {n n' : Nat} (hn : room ≤ n)
    (hn' : room ≤ n') :
    Twins tokens later room Never (Row R) (parenList n item) (parenList n' item') := by
  -- behind the items the closing parenthesis is due
  have idles (s : State) (h : s.Exhausted) : Halts Never
      ((commaList item n [] >>= fun items => expect .rightParen .rightParen >>= fun _ =>
        pure items : Parse (List β)) s) :=
    (commaList_idles (fun before => (hitem before).idles) n [] s h).bind fun items s₁ h₁ =>
      (halts_expect h₁ _ _).fails
  have closes (items : List β) (s : State) (hs : Stands tokens s) : Abreast tokens later Never
      ((expect .rightParen .rightParen >>= fun _ => pure items : Parse (List β)) s)
      ((expect .rightParen .rightParen >>= fun _ => pure items : Parse (List β))
        (s.extend later)) :=
    abreast_expect hs _ _ fun s₁ hs₁ _ => abreast_pure hs₁ items
  refine ⟨parenList_tells (fun before => (hitem before).tells) hR n, fun s h => ?_,
    fun s hs hroom => ?_⟩
  · -- the first run is at its end
    rw [parenList]
    refine halts_skipNewlines h fun s₁ h₁ => ?_
    rw [get_bind, State.atSymbol_of_exhausted h₁]
    exact idles s₁ h₁
  · -- both runs go on, and see the same
    rw [parenList, parenList]
    refine abreast_skipNewlines hs (fun s₁ hs₁ hle₁ => ?_) fun s₁ h₁ => ?_
    · rw [get_bind, get_bind]
      refine .ite (peek_atSymbol .rightParen) (fun h₁ => ?_) (fun _ => closes [] s₁ hs₁) fun _ => ?_
      · rw [State.atSymbol_of_exhausted h₁]
        exact idles s₁ h₁
      · refine (commaList_abreast hitem hle n n' [] s₁ hs₁ (by omega) (by omega) (by omega)).bind
          (fun items s₂ hs₂ _ => closes items s₂ hs₂) fun items s₂ h₂ => ?_
        exact (halts_expect h₂ _ _).fails
    · -- only newlines were left for the first run
      rw [get_bind, State.atSymbol_of_exhausted h₁]
      exact idles s₁ h₁

end Lists

/-! ## Chains -/

section Chains

variable {room : Nat} {test : State → Bool} {link link' : β → Parse β}

/-- At the end of the tokens a chain has no further link. -/
theorem links_idles (htest : ∀ s : State, s.Exhausted → test s = false) (n : Nat) (chained : Bool)
    (left : β) : Idles State.Exhausted (links test link n chained left) := by
  intro s h
  cases n with
  | zero => rfl
  | succ n =>
    rw [links, get_bind, htest s h]
    exact h

/-- **Chains are read in step**, link by link. -/
theorem links_abreast (htest : Peek test) (hend : ∀ s : State, s.Exhausted → test s = false)
    (hdepth : ∀ s depth, test s = true → test (s.atDepth depth) = true)
    (hlink : ∀ left s, Stands tokens s → test s = true → tokens.length < s.position + room →
      Abreast tokens later State.Exhausted (link left s) (link' left (s.extend later)))
    (hlonger : ∀ left s, At tokens s → test s = true →
      Told tokens (fun hi _ => s.position < hi) (link left s))
    (n n' : Nat) (chained : Bool) (left : β) (s : State) (hs : Stands tokens s)
    (hroom : tokens.length < s.position + room) (hn : tokens.length < s.position + n)
    (hn' : tokens.length < s.position + n') :
    Abreast tokens later State.Exhausted (links test link n chained left s)
      (links test link' n' chained left (s.extend later)) := by
  induction n generalizing n' chained left s with
  | zero => exact absurd hs.place.position (by omega)
  | succ n ih =>
    obtain ⟨n', rfl⟩ : ∃ m, n' = m + 1 := ⟨n' - 1, by have := hs.place.position; omega⟩
    have idles : s.Exhausted → Halts State.Exhausted (links test link (n + 1) chained left s) :=
      links_idles hend (n + 1) chained left s
    rw [links, get_bind] at idles ⊢
    rw [links, get_bind]
    refine .ite htest idles (fun hmore => ?_) fun _ => abreast_pure hs left
    -- one link, and then the others with one token less
    have hone (s₁ : State) (hs₁ : Stands tokens s₁) (hmore₁ : test s₁ = true)
        (hposition : s₁.position = s.position) :
        Abreast tokens later State.Exhausted ((link left >>= links test link n true) s₁)
          ((link' left >>= links test link' n' true) (s₁.extend later)) := by
      refine (hlink left s₁ hs₁ hmore₁ (by omega)).bind (fun e s₂ hs₂ hok => ?_) fun e s₂ h₂ =>
        links_idles hend n true e s₂ h₂
      have hlt : s₁.position < s₂.position := by
        have htold := hlonger left s₁ hs₁.place hmore₁
        rw [hok] at htold
        exact htold.2
      exact ih n' true e s₂ hs₂ (by omega) (by omega) (by omega)
    cases chained with
    | true => exact abreast_enter hs fun depth hs₁ => hone _ hs₁ (hdepth s depth hmore) rfl
    | false => exact hone s hs hmore rfl

/-- A first item and the links after it. -/
theorem chain_abreast {first first' : Parse β} (htest : Peek test)
    (hend : ∀ s : State, s.Exhausted → test s = false)
    (hdepth : ∀ s depth, test s = true → test (s.atDepth depth) = true)
    (hfirst : Twins tokens later room State.Exhausted R first first')
    (hle : ∀ lo hi b, R lo hi b → lo ≤ hi) (hs : Stands tokens s)
    (hroom : tokens.length < s.position + room)
    (hlink : ∀ left s₁, Stands tokens s₁ → test s₁ = true → tokens.length < s₁.position + room →
      Abreast tokens later State.Exhausted (link left s₁) (link' left (s₁.extend later)))
    (hlonger : ∀ left s₁, At tokens s₁ → test s₁ = true →
      Told tokens (fun hi _ => s₁.position < hi) (link left s₁)) {n n' : Nat} (hn : room ≤ n)
    (hn' : room ≤ n') :
    Abreast tokens later State.Exhausted (chain n first test link s)
      (chain n' first' test link' (s.extend later)) := by
  -- at the end of a chain the nesting is what it was
  have closes (whole : β) (s₁ : State) (h₁ : s₁.Exhausted) : Halts State.Exhausted
      ((do modify fun s' => { s' with depth := s.depth }; return whole : Parse β) s₁) := h₁
  rw [chain, chain, get_bind, get_bind]
  -- the first operand, and the links behind it
  refine hfirst.bind hs hroom (fun left s₁ hs₁ hleft => ?_) fun left s₁ h₁ =>
    (links_idles hend n false left s₁ h₁).bind closes
  have hle₁ := hle _ _ _ hleft
  refine (links_abreast htest hend hdepth hlink hlonger n n' false left s₁ hs₁ (by omega) (by omega)
    (by omega)).bind (fun whole s₂ hs₂ _ => ?_) closes
  exact .inl (.ok (hs₂.congr rfl rfl rfl))

/-- At the end a chain is its first operand. -/
theorem chain_idles {first : Parse β} (hend : ∀ s : State, s.Exhausted → test s = false)
    (hfirst : Idles State.Exhausted first) (n : Nat) :
    Idles State.Exhausted (chain n first test link) := by
  intro s h
  rw [chain, get_bind]
  refine (hfirst s h).bind fun left s₁ h₁ => ?_
  exact (links_idles hend n false left s₁ h₁).bind fun whole s₂ h₂ => h₂

end Chains

end Parse

end Scriptlet
