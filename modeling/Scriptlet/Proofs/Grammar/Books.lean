/-
  Books: what a run of the parser does to the counters and to the place in the token list.

  1. **Books** — `Kept tokens a s s'`: from `s` to `s'` at least `a` tokens were read, and the
     counters are what they were.  `BrokenOff s s'`: a rule that failed at `s'` leaves the counter
     of nesting where it was or above, and never above the limit.
  2. **Booked runs** (`Booked`) — two runs from one state end in the same way, and it is booked.
     `Steady tokens room a p p'` says so of two computations wherever fewer than `room` tokens are
     left; the first one has any edges that fit, the second one those of the parser.
  3. **Steps** — one lemma for each step, for nesting, lists and chains.  In a chain the nesting is
     raised link by link (`Climbed`), and what it was is restored when the chain is read to its end.
-/
import Scriptlet.Proofs.Grammar.Edges
import Scriptlet.Proofs.Grammar.Ranges

namespace Scriptlet.Parse

variable {β γ : Type} {tokens : List Token} {s₀ s s' : State} {a b k room n n' : Nat}

/-! ## Books -/

/-- The tokens left are those from the position on, and the nesting is within its limit. -/
structure Regular (tokens : List Token) (s : State) : Prop where
  limit : s.depth ≤ maxNesting
  rest : s.rest = tokens.drop s.position

/-- From `s` to `s'` at least `a` tokens were read, and the counters are what they were. -/
structure Kept (tokens : List Token) (a : Nat) (s s' : State) : Prop where
  before : Regular tokens s
  after : Regular tokens s'
  depth : s'.depth = s.depth
  functions : s'.functions = s.functions
  loops : s'.loops = s.loops
  far : s.position + a ≤ s'.position
  near : s'.position ≤ s.position + s.rest.length

/-- A rule that started at `s` failed at `s'`. -/
structure BrokenOff (s s' : State) : Prop where
  depth : s.depth ≤ s'.depth
  limit : s'.depth ≤ maxNesting
  functions : s'.functions = s.functions
  loops : s'.loops = s.loops

/-- The number of tokens left is fixed by the position. -/
theorem Regular.length (h : Regular tokens s) : s.rest.length = tokens.length - s.position := by
  rw [h.rest, List.length_drop]

/-- The nesting may be set to anything within the limit. -/
theorem Regular.atDepth (h : Regular tokens s) {depth : Nat} (hdepth : depth ≤ maxNesting) :
    Regular tokens (s.atDepth depth) :=
  ⟨hdepth, h.rest⟩

namespace Kept

/-- Nothing is read between a state and itself. -/
theorem refl (h : Regular tokens s) : Kept tokens 0 s s :=
  ⟨h, h, rfl, rfl, rfl, Nat.le_refl _, Nat.le_add_right ..⟩

/-- What was read is not left any more. -/
theorem length (h : Kept tokens a s s') : s'.rest.length + a ≤ s.rest.length := by
  have hbefore := h.before.length
  have hafter := h.after.length
  have hfar := h.far
  have hnear := h.near
  omega

/-- What two stretches read adds up. -/
theorem trans (h : Kept tokens a s₀ s) (h' : Kept tokens b s s') : Kept tokens (a + b) s₀ s' where
  before := h.before
  after := h'.after
  depth := h'.depth.trans h.depth
  functions := h'.functions.trans h.functions
  loops := h'.loops.trans h.loops
  far := by
    have hfar := h.far
    have hfar' := h'.far
    omega
  near := by
    have hbefore := h.before.length
    have hafter := h.after.length
    have hnear := h.near
    have hnear' := h'.near
    omega

/-- At least so many tokens are also at least fewer ones. -/
theorem mono (h : Kept tokens a s s') (hle : b ≤ a) : Kept tokens b s s' :=
  { h with far := Nat.le_trans (Nat.add_le_add_left hle _) h.far }

/-- Tokens are dropped as far as there are any. -/
theorem drop (h : Regular tokens s) (n : Nat) :
    Kept tokens (min n s.rest.length) s (s.drop n) := by
  have hlength : (s.rest.take n).length = min n s.rest.length := List.length_take
  refine ⟨h, ⟨h.limit, ?_⟩, rfl, rfl, rfl, ?_, ?_⟩
  · show s.rest.drop n = tokens.drop (s.position + (s.rest.take n).length)
    rw [← List.drop_drop, ← h.rest, hlength]
    rcases Nat.le_total n s.rest.length with hn | hn
    · rw [Nat.min_eq_left hn]
    · rw [Nat.min_eq_right hn, List.drop_length, List.drop_eq_nil_of_le hn]
  · show _ ≤ s.position + (s.rest.take n).length
    omega
  · show s.position + (s.rest.take n).length ≤ _
    omega

/-- Skipping may read tokens, and none is promised. -/
theorem skipWhile (h : Kept tokens a s₀ s) (p : TokenKind → Bool) :
    Kept tokens a s₀ (s.skipWhile p) :=
  (h.trans (drop h.after _)).mono (Nat.le_add_right ..)

/-- A step reads a token, unless none is left. -/
theorem next (h : Kept tokens a s₀ s) : Kept tokens (a + min 1 s.rest.length) s₀ s.next :=
  h.trans (drop h.after 1)

/-- Where a token is left, a step reads it. -/
theorem next_of_ne_nil (h : Kept tokens a s₀ s) (hne : s.rest ≠ []) :
    Kept tokens (a + 1) s₀ s.next := by
  have hlength := List.length_pos_iff.mpr hne
  exact h.next.mono (by omega)

/-- At another nesting the same tokens are read. -/
theorem atDepth (h : Kept tokens a s s') {depth : Nat} (hdepth : depth ≤ maxNesting) :
    Kept tokens a (s.atDepth depth) (s'.atDepth depth) :=
  ⟨h.before.atDepth hdepth, h.after.atDepth hdepth, rfl, h.functions, h.loops, h.far, h.near⟩

/-- A state that was booked one level deeper, back on its level. -/
theorem leave (h : Kept tokens a (s.atDepth (s.depth + 1)) s') : Kept tokens a s s'.leave := by
  have hdepth : s'.depth - 1 = s.depth := by
    rw [h.depth]
    rfl
  have hlimit : s.depth ≤ maxNesting := Nat.le_of_succ_le h.before.limit
  exact ⟨⟨hlimit, h.before.rest⟩, ⟨Nat.le_trans (Nat.le_of_eq hdepth) hlimit, h.after.rest⟩, hdepth,
    h.functions, h.loops, h.far, h.near⟩

/-- A rule may break off in any state that it was booked to. -/
theorem brokenOff (h : Kept tokens a s s') : BrokenOff s s' :=
  ⟨Nat.le_of_eq h.depth.symm, h.after.limit, h.functions, h.loops⟩

end Kept

/-- A rule breaks off where its part does. -/
theorem BrokenOff.trans (h : BrokenOff s₀ s) (h' : BrokenOff s s') : BrokenOff s₀ s' :=
  ⟨Nat.le_trans h.depth h'.depth, h'.limit, h'.functions.trans h.functions,
    h'.loops.trans h.loops⟩

/-- A rule that broke off one level deeper, back on its level. -/
theorem BrokenOff.leave (h : BrokenOff (s.atDepth (s.depth + 1)) s') : BrokenOff s s'.leave where
  depth := Nat.le_sub_one_of_lt h.depth
  limit := Nat.le_trans (Nat.sub_le ..) h.limit
  functions := h.functions
  loops := h.loops

/-! ## Booked runs -/

variable {Q Q' : State → Prop} {p p' : Parse β} {f f' : β → Parse γ}

/-- A run that started at `s` ends well in such a state, or it breaks off. -/
def Ends (s : State) (Q : State → Prop) : EStateM.Result ParseError State β → Prop
  | .ok _ s' => Q s'
  | .error _ s' => BrokenOff s s'

/-- Two runs from `s` end in the same way, and it is booked. -/
structure Booked (s : State) (Q : State → Prop) (r r' : EStateM.Result ParseError State β) :
    Prop where
  same : r = r'
  ends : Ends s Q r

namespace Booked

variable {r r' : EStateM.Result ParseError State β}

/-- What is booked from a later state is booked from an earlier one. -/
theorem rebase (h : Booked s Q r r') (hs : BrokenOff s₀ s) (hQ : ∀ s', Q s' → Q' s') :
    Booked s₀ Q' r r' := by
  refine ⟨h.same, ?_⟩
  have hends := h.ends
  cases r with
  | ok x s' => exact hQ s' hends
  | error e s' => exact hs.trans hends

/-- **One computation after the other.** -/
theorem bind (h : Booked s₀ Q (p s) (p' s))
    (hnext : ∀ x s₁, Q s₁ → Booked s₀ Q' (f x s₁) (f' x s₁)) :
    Booked s₀ Q' ((p >>= f) s) ((p' >>= f') s) := by
  obtain ⟨hsame, hends⟩ := h
  show Booked s₀ Q' (EStateM.bind p f s) (EStateM.bind p' f' s)
  unfold EStateM.bind
  rw [← hsame]
  cases hp : p s with
  | ok x s₁ =>
    rw [hp] at hends
    exact hnext x s₁ hends
  | error e s₁ =>
    rw [hp] at hends
    exact ⟨rfl, hends⟩

/-- A branch that both runs take. -/
theorem ite {c : Prop} [Decidable c] {p₁ p₁' p₂ p₂' : Parse β}
    (hyes : c → Booked s₀ Q (p₁ s) (p₁' s)) (hno : ¬c → Booked s₀ Q (p₂ s) (p₂' s)) :
    Booked s₀ Q ((if c then p₁ else p₂) s) ((if c then p₁' else p₂') s) := by
  by_cases hc : c
  · rw [if_pos hc, if_pos hc]
    exact hyes hc
  · rw [if_neg hc, if_neg hc]
    exact hno hc

/-- What runs in another context, and is tidied up on both ways out of it. -/
theorem always {tidy tidy' : State → State} (h : Booked s Q (p s) (p' s))
    (hok : ∀ s', Q s' → tidy s' = tidy' s' ∧ Q' (tidy' s'))
    (herror : ∀ s', BrokenOff s s' → tidy s' = tidy' s' ∧ BrokenOff s₀ (tidy' s')) :
    Booked s₀ Q' (always tidy p s) (always tidy' p' s) := by
  obtain ⟨hsame, hends⟩ := h
  unfold Scriptlet.always
  rw [← hsame]
  cases hp : p s with
  | ok x s₁ =>
    rw [hp] at hends
    obtain ⟨htidy, hQ⟩ := hok s₁ hends
    -- a result: what was kept before tidying is kept behind it
    dsimp only
    rw [htidy]
    exact ⟨rfl, hQ⟩
  | error e s₁ =>
    rw [hp] at hends
    obtain ⟨htidy, hbroken⟩ := herror s₁ hends
    -- a failure: it broke off before tidying
    dsimp only
    rw [htidy]
    exact ⟨rfl, hbroken⟩

end Booked

/-- Both computations are booked wherever fewer than `room` tokens are left, and read at least `a`
    tokens. -/
def Steady (tokens : List Token) (room a : Nat) (p p' : Parse β) : Prop :=
  ∀ s, Regular tokens s → s.rest.length < room → Booked s (Kept tokens a s) (p s) (p' s)

namespace Steady

/-- Without room there is no place to start from. -/
theorem vacant : Steady tokens 0 a p p' := fun _ _ h => absurd h (Nat.not_lt_zero _)

/-- With less room there are fewer states to start from. -/
theorem mono (h : Steady tokens room a p p') {room' : Nat} (hle : room' ≤ room) :
    Steady tokens room' a p p' :=
  fun s hs hroom => h s hs (Nat.lt_of_lt_of_le hroom hle)

/-- A steady computation, started at a state that is booked from an earlier one. -/
theorem booked (h : Steady tokens room b p p') (hs : Kept tokens a s₀ s)
    (hroom : s₀.rest.length < room + a) : Booked s₀ (Kept tokens (a + b) s₀) (p s) (p' s) := by
  have hlength := hs.length
  exact (h s hs.after (by omega)).rebase hs.brokenOff fun s' h' => hs.trans h'

/-- What follows a steady computation. -/
theorem bind (h : Steady tokens room b p p') (hs : Kept tokens a s₀ s)
    (hroom : s₀.rest.length < room + a)
    (hnext : ∀ x s₁, Kept tokens (a + b) s₀ s₁ → Booked s₀ Q (f x s₁) (f' x s₁)) :
    Booked s₀ Q ((p >>= f) s) ((p' >>= f') s) :=
  (h.booked hs hroom).bind hnext

end Steady

/-! ## Single steps -/

/-- A result reads nothing, so what was booked before it is enough. -/
theorem booked_pure (hs : Kept tokens a s₀ s) (x : β) (hle : k ≤ a) :
    Booked s₀ (Kept tokens k s₀) ((pure x : Parse β) s) ((pure x : Parse β) s) :=
  ⟨rfl, hs.mono hle⟩

/-- A failure ends a run whatever was to hold at its end. -/
theorem booked_error (hs : BrokenOff s₀ s) (e : ParseError) :
    Booked s₀ Q (.error e s : EStateM.Result ParseError State β) (.error e s) :=
  ⟨rfl, hs⟩

/-- The last step of most rules: the origin of the node is noted. -/
theorem booked_node (hs : Kept tokens a s₀ s) (span : Span) (start : Nat) (node : Origin → β)
    (hle : k ≤ a) :
    Booked s₀ (Kept tokens k s₀) ((originFrom span start >>= fun o => pure (node o)) s)
      ((originFrom span start >>= fun o => pure (node o)) s) :=
  ⟨rfl, hs.mono hle⟩

/-- One token on. -/
theorem booked_advance {f f' : Unit → Parse γ} (h : Booked s₀ Q (f () s.next) (f' () s.next)) :
    Booked s₀ Q ((advance >>= f) s) ((advance >>= f') s) := h

/-- Skipping newlines is steady, without a token promised. -/
theorem steady_skipNewlines : Steady tokens room 0 skipNewlines skipNewlines :=
  fun _ hs _ => ⟨rfl, (Kept.refl hs).skipWhile _⟩

/-- Skipping separators is steady, without a token promised. -/
theorem steady_skipSeparators : Steady tokens room 0 skipSeparators skipSeparators :=
  fun _ hs _ => ⟨rfl, (Kept.refl hs).skipWhile _⟩

/-- What follows newlines that are skipped. -/
theorem booked_skipNewlines {f f' : Unit → Parse γ} (hs : Kept tokens a s₀ s)
    (hnext : ∀ s₁, Kept tokens a s₀ s₁ → Booked s₀ Q (f () s₁) (f' () s₁)) :
    Booked s₀ Q ((skipNewlines >>= f) s) ((skipNewlines >>= f') s) :=
  hnext s.skipNewlines (hs.skipWhile _)

/-- **An expected symbol is read, or the rule breaks off.** -/
theorem steady_expect (x : Symbol) (expected : Expectation) :
    Steady tokens room 1 (expect x expected) (expect x expected) := by
  intro s hs _
  rw [expect, get_bind]
  refine .ite (fun hx => ?_) fun _ => booked_error (Kept.refl hs).brokenOff _
  exact ⟨rfl, (Kept.refl hs).next_of_ne_nil (rest_ne_nil_of_atSymbol hx)⟩

/-- **A name is read, or the rule breaks off.** -/
theorem steady_identifier (expected : Expectation) :
    Steady tokens room 1 (identifier expected) (identifier expected) := by
  intro s hs _
  have hkept := Kept.refl hs
  rw [identifier, get_bind]
  cases hrest : s.rest with
  | nil => exact booked_error hkept.brokenOff _
  | cons t ts =>
    refine .ite (fun _ => ?_) fun _ => booked_error hkept.brokenOff _
    exact ⟨rfl, hkept.next_of_ne_nil (by rw [hrest]; exact List.cons_ne_nil t ts)⟩

/-- What follows a computation that is steady whatever room there is. -/
theorem Steady.bind_of_all (h : ∀ room, Steady tokens room b p p') (hs : Kept tokens a s₀ s)
    (hnext : ∀ x s₁, Kept tokens (a + b) s₀ s₁ → Booked s₀ Q (f x s₁) (f' x s₁)) :
    Booked s₀ Q ((p >>= f) s) ((p' >>= f') s) :=
  (h (s₀.rest.length + 1)).bind hs (Nat.lt_of_lt_of_le (Nat.lt_succ_self _) (Nat.le_add_right ..))
    hnext

/-- What follows an expected symbol. -/
theorem booked_expect {f f' : Unit → Parse γ} (hs : Kept tokens a s₀ s) (x : Symbol)
    (expected : Expectation)
    (hnext : ∀ s₁, Kept tokens (a + 1) s₀ s₁ → Booked s₀ Q (f () s₁) (f' () s₁)) :
    Booked s₀ Q ((expect x expected >>= f) s) ((expect x expected >>= f') s) :=
  Steady.bind_of_all (fun _ => steady_expect x expected) hs fun _ => hnext

/-- What follows a name. -/
theorem booked_identifier {f f' : String → Parse γ} (hs : Kept tokens a s₀ s)
    (expected : Expectation)
    (hnext : ∀ x s₁, Kept tokens (a + 1) s₀ s₁ → Booked s₀ Q (f x s₁) (f' x s₁)) :
    Booked s₀ Q ((identifier expected >>= f) s) ((identifier expected >>= f') s) :=
  Steady.bind_of_all (fun _ => steady_identifier expected) hs hnext

/-! ## Nesting -/

/-- Going one level deeper. -/
theorem booked_enter {f f' : Unit → Parse γ} (hs : BrokenOff s₀ s)
    (hnext : s.depth < maxNesting →
      Booked s₀ Q (f () (s.atDepth (s.depth + 1))) (f' () (s.atDepth (s.depth + 1)))) :
    Booked s₀ Q ((enter >>= f) s) ((enter >>= f') s) := by
  rw [enter, bind_assoc, bind_assoc, get_bind, get_bind]
  by_cases hdepth : s.depth < maxNesting
  · rw [if_pos hdepth]
    exact hnext hdepth
  · rw [if_neg hdepth]
    exact booked_error hs _

/-- In the context of a function the counter of functions is raised, and it is restored on both ways
    out. -/
theorem Steady.inFunction (h : Steady tokens room a p p') :
    Steady tokens room a (inFunction p) (inFunction p') := by
  intro s hs hroom
  rw [Parse.inFunction, Parse.inFunction, get_bind, get_bind]
  have hinner : Regular tokens { s with functions := s.functions + 1, loops := 0 } :=
    ⟨hs.limit, hs.rest⟩
  have restored {k : Nat} (hk : k = s.functions + 1) : k - 1 = s.functions := by
    rw [hk, Nat.add_sub_cancel]
  refine (h _ hinner hroom).always (fun s' hs' => ⟨rfl, ?_⟩) fun s' hs' => ⟨rfl, ?_⟩
  · exact ⟨hs, ⟨hs'.after.limit, hs'.after.rest⟩, hs'.depth, restored hs'.functions, rfl, hs'.far,
      hs'.near⟩
  · exact ⟨hs'.depth, hs'.limit, restored hs'.functions, rfl⟩

/-- In the context of a loop the counter of loops is raised, and it is restored on both ways out. -/
theorem Steady.inLoop (h : Steady tokens room a p p') :
    Steady tokens room a (inLoop p) (inLoop p') := by
  intro s hs hroom
  have hinner : Regular tokens { s with loops := s.loops + 1 } := ⟨hs.limit, hs.rest⟩
  have restored {k : Nat} (hk : k = s.loops + 1) : k - 1 = s.loops := by
    rw [hk, Nat.add_sub_cancel]
  refine (h _ hinner hroom).always (fun s' hs' => ⟨rfl, ?_⟩) fun s' hs' => ⟨rfl, ?_⟩
  · exact ⟨hs, ⟨hs'.after.limit, hs'.after.rest⟩, hs'.depth, hs'.functions, restored hs'.loops,
      hs'.far, hs'.near⟩
  · exact ⟨hs'.depth, hs'.limit, hs'.functions, restored hs'.loops⟩

section Edges

variable {edges : Edges}

/-- **No level is left that was not entered**: one level deeper the counter is positive, whether the
    computation there ends well or breaks off. -/
theorem booked_nested (hedges : edges.Fits tokens) (hs : Regular tokens s)
    (h : s.depth < maxNesting →
      Booked (s.atDepth (s.depth + 1)) (Kept tokens a (s.atDepth (s.depth + 1)))
        (p (s.atDepth (s.depth + 1))) (p' (s.atDepth (s.depth + 1)))) :
    Booked s (Kept tokens a s) (edges.nested p s) (nested p' s) := by
  refine booked_enter (Kept.refl hs).brokenOff fun hlt => ?_
  refine (h hlt).always (fun s' hs' => ⟨?_, hs'.leave⟩) fun s' hs' => ⟨?_, hs'.leave⟩
  · exact hedges.leave s' (Nat.lt_of_lt_of_eq (Nat.succ_pos _) hs'.depth.symm)
  · exact hedges.leave s' (Nat.lt_of_lt_of_le (Nat.succ_pos _) hs'.depth)

/-- One level deeper a steady computation stays steady. -/
theorem Steady.nested (hedges : edges.Fits tokens) (h : Steady tokens room a p p') :
    Steady tokens room a (edges.nested p) (nested p') :=
  fun _ hs hroom => booked_nested hedges hs fun hlt => h _ (hs.atDepth hlt) hroom

/-! ## Lists in parentheses -/

section Lists

variable {item item' : List β → Parse β}

/-- With every item there is one token less, so the bound is not reached. -/
theorem steady_commaList
    (hitem : ∀ before, Steady tokens room 1 (item before) (item' before)) (hn : room ≤ n)
    (hn' : room ≤ n') (before : List β) :
    Steady tokens room 1 (edges.commaList item n before) (commaList item' n' before) := by
  induction n generalizing n' room before with
  | zero =>
    obtain rfl := Nat.le_zero.mp hn
    exact .vacant
  | succ n ih =>
    intro s hs hroom
    -- the other bound is not reached either
    obtain ⟨n', rfl⟩ : ∃ m, n' = m + 1 := ⟨n' - 1, by omega⟩
    have hothers : ∀ before, Steady tokens (room - 1) 1 (edges.commaList item n before)
        (commaList item' n' before) :=
      ih (fun before => (hitem before).mono (by omega)) (by omega) (by omega)
    rw [Edges.commaList, commaList]
    refine (hitem before).bind (.refl hs) hroom fun x s₁ hs₁ => ?_
    refine booked_skipNewlines hs₁ fun s₂ hs₂ => ?_
    rw [get_bind, get_bind]
    -- no comma: the list ends here
    refine .ite (fun hcomma => ?_) fun _ => booked_pure hs₂ _ (by omega)
    refine booked_advance ?_
    refine booked_skipNewlines (hs₂.next_of_ne_nil (rest_ne_nil_of_atSymbol hcomma))
      fun s₃ hs₃ => ?_
    exact ((hothers _).booked hs₃ (by omega)).rebase (Kept.refl hs).brokenOff fun s' h' =>
      h'.mono (by omega)

/-- **A list in parentheses is steady**, and reads at least the parenthesis that closes it. -/
theorem steady_parenList
    (hitem : ∀ before, Steady tokens room 1 (item before) (item' before)) (hn : room ≤ n)
    (hn' : room ≤ n') : Steady tokens room 1 (edges.parenList n item) (parenList n' item') := by
  intro s hs hroom
  rw [Edges.parenList, parenList]
  refine booked_skipNewlines (.refl hs) fun s₁ hs₁ => ?_
  rw [get_bind, get_bind]
  have closes (items : List β) (s₂ : State) (hs₂ : Kept tokens 0 s s₂) :
      Booked s (Kept tokens 1 s) ((expect .rightParen .rightParen >>= fun _ => pure items) s₂)
        ((expect .rightParen .rightParen >>= fun _ => pure items) s₂) :=
    booked_expect hs₂ _ _ fun s₃ hs₃ => booked_pure hs₃ items (Nat.le_refl 1)
  refine .ite (fun _ => closes [] s₁ hs₁) fun _ => ?_
  refine (steady_commaList hitem hn hn' []).bind hs₁ hroom fun items s₂ hs₂ => ?_
  exact closes items s₂ (hs₂.mono (Nat.zero_le _))

end Lists

/-! ## Chains -/

/-- From `s` to `s'` at least `a` tokens were read, and the nesting may have been raised. -/
structure Climbed (tokens : List Token) (a : Nat) (s s' : State) : Prop where
  kept : Kept tokens a s (s'.atDepth s.depth)
  depth : s.depth ≤ s'.depth
  limit : s'.depth ≤ maxNesting

namespace Climbed

/-- A state that was climbed to is regular. -/
theorem regular (h : Climbed tokens a s s') : Regular tokens s' := ⟨h.limit, h.kept.after.rest⟩

/-- A chain may break off after any link. -/
theorem brokenOff (h : Climbed tokens a s s') : BrokenOff s s' :=
  ⟨h.depth, h.limit, h.kept.functions, h.kept.loops⟩

/-- Before the first link nothing was climbed. -/
theorem of_kept (h : Kept tokens a s s') : Climbed tokens a s s' where
  kept := ⟨h.before, ⟨h.before.limit, h.after.rest⟩, rfl, h.functions, h.loops, h.far, h.near⟩
  depth := Nat.le_of_eq h.depth.symm
  limit := h.after.limit

/-- A link raises the nesting by one, where the limit allows. -/
theorem enter (h : Climbed tokens a s s') (hlt : s'.depth < maxNesting) :
    Climbed tokens a s (s'.atDepth (s'.depth + 1)) :=
  ⟨h.kept, Nat.le_succ_of_le h.depth, hlt⟩

/-- Between two links the nesting is kept. -/
theorem trans (h : Climbed tokens a s₀ s) (h' : Kept tokens b s s') : Climbed tokens a s₀ s' where
  kept := (h.kept.trans (h'.atDepth h.kept.before.limit)).mono (Nat.le_add_right ..)
  depth := by
    rw [h'.depth]
    exact h.depth
  limit := h'.after.limit

end Climbed

section Chains

variable {more : State → Bool} {link link' : β → Parse β} {first first' : Parse β}

/-- Every link reads a token, at whatever nesting. -/
structure SteadyLink (tokens : List Token) (room : Nat) (more : State → Bool)
    (link link' : β → Parse β) : Prop where
  atDepth (s : State) (depth : Nat) : more (s.atDepth depth) = more s
  link (left : β) (s : State) (hs : Regular tokens s) (hroom : s.rest.length < room)
    (hmore : more s = true) : Booked s (Kept tokens 1 s) (link left s) (link' left s)

/-- The links of a chain raise the nesting, and no bound is reached. -/
theorem booked_links (hlink : SteadyLink tokens room more link link') (n n' : Nat) (chained : Bool)
    (left : β) (s : State) (hs : Climbed tokens a s₀ s) (hroom : s.rest.length < room)
    (hn : s.rest.length < n) (hn' : s.rest.length < n') :
    Booked s₀ (Climbed tokens a s₀) (edges.links more link n chained left s)
      (links more link' n' chained left s) := by
  induction n generalizing n' chained left s with
  | zero => exact absurd hn (Nat.not_lt_zero _)
  | succ n ih =>
    obtain ⟨n', rfl⟩ : ∃ m, n' = m + 1 := ⟨n' - 1, by omega⟩
    rw [Edges.links, links, get_bind, get_bind]
    refine .ite (fun hmore => ?_) fun _ => ⟨rfl, hs⟩
    -- one link, and then the others with one token less
    have hone (s₁ : State) (hs₁ : Climbed tokens a s₀ s₁) (hmore₁ : more s₁ = true)
        (hrest : s₁.rest = s.rest) :
        Booked s₀ (Climbed tokens a s₀) ((link left >>= edges.links more link n true) s₁)
          ((link' left >>= links more link' n' true) s₁) := by
      rw [← hrest] at hroom hn hn'
      refine ((hlink.link left s₁ hs₁.regular hroom hmore₁).rebase hs₁.brokenOff
        fun _ h => h).bind fun whole s₂ hs₂ => ?_
      have hlength := hs₂.length
      exact ih n' true whole s₂ (hs₁.trans hs₂) (by omega) (by omega) (by omega)
    cases chained with
    | true =>
      exact booked_enter hs.brokenOff fun hlt =>
        hone _ (hs.enter hlt) ((hlink.atDepth s _).trans hmore) rfl
    | false => exact hone s hs hmore rfl

/-- **After a chain the nesting is what it was before.** -/
theorem steady_chain (hfirst : Steady tokens room 1 first first')
    (hlink : SteadyLink tokens room more link link') (hn : room ≤ n) (hn' : room ≤ n') :
    Steady tokens room 1 (edges.chain n first more link) (chain n' first' more link') := by
  intro s hs hroom
  rw [Edges.chain, chain, get_bind, get_bind]
  refine hfirst.bind (.refl hs) hroom fun left s₁ hs₁ => ?_
  have hlength := hs₁.length
  refine (booked_links hlink n n' false left s₁ (.of_kept hs₁) (by omega) (by omega)
    (by omega)).bind fun whole s₂ hs₂ => ?_
  exact ⟨rfl, hs₂.kept.mono (by omega)⟩

end Chains

end Edges

end Scriptlet.Parse
