/-
  Ranges: which tokens the nodes of a tree come from.

  1. **Spec** (`Expr.Fits`, `Stmt.Fits`) — a node fits between two positions of a token list if its
     range lies between them, its place is that of a token inside the range, and its children fit
     one after the other inside the range; a literal or a name has a single token, and the place of
     a statement is that of its first token.
  2. **Rules** (`Tells`) — a rule of the grammar that starts at a place of the list ends at a place
     further on with a node that fits between the two, or with an error at one of the tokens.
     There is one lemma for each rule, and an induction on the bound ties them together.
  3. **The result** (`parse_told`) — a parsed tree fits in the whole list, and an error is at one of
     its tokens.
-/
import Scriptlet.Proofs.Grammar.StatementSoundness

namespace Scriptlet

/-! ## Rows -/

/-- Items between two positions, one after the other. -/
def Row {β : Type} (R : Nat → Nat → β → Prop) (lo hi : Nat) : List β → Prop
  | [] => lo ≤ hi
  | b :: bs => ∃ mid, R lo mid b ∧ Row R mid hi bs

section Row

variable {β : Type} {R : Nat → Nat → β → Prop} {lo lo' mid hi hi' : Nat} {b : β} {bs : List β}

/-- Items that fit somewhere fit in a wider space. -/
def Widens (R : Nat → Nat → β → Prop) : Prop :=
  ∀ lo lo' hi hi' b, R lo hi b → lo' ≤ lo → hi ≤ hi' → R lo' hi' b

/-- A row fits in a wider space: its first item starts where it started, and the last bound moves.
    -/
theorem Row.mono (hR : Widens R) (h : Row R lo hi bs) (hlo : lo' ≤ lo) (hhi : hi ≤ hi') :
    Row R lo' hi' bs := by
  induction bs generalizing lo lo' with
  | nil => exact Nat.le_trans (Nat.le_trans hlo h) hhi
  | cons b bs ih =>
    obtain ⟨mid, hb, hbs⟩ := h
    exact ⟨mid, hR _ _ _ _ b hb hlo (Nat.le_refl mid), ih hbs (Nat.le_refl mid)⟩

/-- One more item at the end. -/
theorem Row.concat (hR : Widens R) (h : Row R lo mid bs) (hb : R mid hi b) :
    Row R lo hi (bs ++ [b]) := by
  induction bs generalizing lo with
  | nil => exact ⟨hi, hR _ _ _ _ b hb h (Nat.le_refl hi), Nat.le_refl hi⟩
  | cons c bs ih =>
    obtain ⟨mid', hc, hbs⟩ := h
    exact ⟨mid', hc, ih hbs⟩

/-- Items that do not run backwards make a row that does not. -/
theorem Row.le (hle : ∀ lo hi b, R lo hi b → lo ≤ hi) (h : Row R lo hi bs) : lo ≤ hi := by
  induction bs generalizing lo with
  | nil => exact h
  | cons b bs ih =>
    obtain ⟨mid, hb, hbs⟩ := h
    exact Nat.le_trans (hle lo mid b hb) (ih hbs)

end Row

/-! ## Trees that fit -/

/-- A node with this origin lies between two positions, and its place is that of token `i`, which is
    inside its range. -/
structure Origin.Sits (tokens : List Token) (lo hi i : Nat) (o : Origin) : Prop where
  lo_le : lo ≤ o.start
  start_le : o.start ≤ i
  lt_stop : i < o.stop
  stop_le : o.stop ≤ hi
  span : (tokens[i]?).map Token.span = some o.span

mutual

/-- An expression lies between two positions, with all its parts in order. -/
def Expr.Fits (tokens : List Token) (lo hi : Nat) : Expr Origin → Prop
  | .literal o _ | .name o _ => o.Sits tokens lo hi o.start ∧ o.stop = o.start + 1
  | .unary o _ e => o.Sits tokens lo hi o.start ∧ e.Fits tokens (o.start + 1) o.stop
  | .operation o _ l r =>
    ∃ i, o.Sits tokens lo hi i ∧ l.Fits tokens o.start i ∧ r.Fits tokens (i + 1) o.stop
  | .assign o _ e => ∃ i, o.Sits tokens lo hi i ∧ e.Fits tokens (i + 1) o.stop
  | .call o f args =>
    ∃ i, o.Sits tokens lo hi i ∧ f.Fits tokens o.start i ∧
      Expr.AllFit tokens (i + 1) o.stop args

/-- Several expressions lie between two positions, one after the other. -/
def Expr.AllFit (tokens : List Token) (lo hi : Nat) : List (Expr Origin) → Prop
  | [] => lo ≤ hi
  | e :: es => ∃ mid, e.Fits tokens lo mid ∧ Expr.AllFit tokens mid hi es

end

/-- An expression that may be missing. -/
def Expr.Fits? (tokens : List Token) (lo hi : Nat) : Option (Expr Origin) → Prop
  | none => True
  | some e => e.Fits tokens lo hi

mutual

/-- A statement lies between two positions, with all its parts in order. -/
def Stmt.Fits (tokens : List Token) (lo hi : Nat) : Stmt Origin → Prop
  | .expr o e => o.Sits tokens lo hi o.start ∧ e.Fits tokens o.start o.stop
  | .declare o _ e | .ret o e =>
    o.Sits tokens lo hi o.start ∧ Expr.Fits? tokens (o.start + 1) o.stop e
  | .print o args => o.Sits tokens lo hi o.start ∧ Expr.AllFit tokens (o.start + 1) o.stop args
  | .block o body => o.Sits tokens lo hi o.start ∧ Stmt.AllFit tokens (o.start + 1) o.stop body
  | .cond o c t none =>
    o.Sits tokens lo hi o.start ∧
      ∃ mid, c.Fits tokens (o.start + 1) mid ∧ Stmt.AllFit tokens mid o.stop t
  | .cond o c t (some branch) =>
    o.Sits tokens lo hi o.start ∧
      ∃ mid mid', c.Fits tokens (o.start + 1) mid ∧ Stmt.AllFit tokens mid mid' t ∧
        branch.Fits tokens mid' o.stop
  | .loop o c body =>
    o.Sits tokens lo hi o.start ∧
      ∃ mid, c.Fits tokens (o.start + 1) mid ∧ Stmt.AllFit tokens mid o.stop body
  | .function o _ _ body =>
    o.Sits tokens lo hi o.start ∧ Stmt.AllFit tokens (o.start + 1) o.stop body
  | .breakLoop o | .continueLoop o => o.Sits tokens lo hi o.start

/-- Several statements lie between two positions, one after the other. -/
def Stmt.AllFit (tokens : List Token) (lo hi : Nat) : List (Stmt Origin) → Prop
  | [] => lo ≤ hi
  | s :: rest => ∃ mid, s.Fits tokens lo mid ∧ Stmt.AllFit tokens mid hi rest

end

section Fits

variable {tokens : List Token} {lo lo' hi hi' i : Nat} {o : Origin}

/-- A range that lies in a space lies in a wider one. -/
theorem Origin.Sits.mono (h : o.Sits tokens lo hi i) (hlo : lo' ≤ lo) (hhi : hi ≤ hi') :
    o.Sits tokens lo' hi' i :=
  ⟨Nat.le_trans hlo h.lo_le, h.start_le, h.lt_stop, Nat.le_trans h.stop_le hhi, h.span⟩

/-- No node is empty. -/
theorem Origin.Sits.lt (h : o.Sits tokens lo hi i) : lo < hi := by
  have := h.lo_le
  have := h.start_le
  have := h.lt_stop
  have := h.stop_le
  omega

/-- Whatever kind of node it is, it sits somewhere in the space. -/
theorem Expr.Fits.sits {e : Expr Origin} (h : e.Fits tokens lo hi) :
    ∃ i, e.note.Sits tokens lo hi i := by
  cases e with
  | literal o v => exact ⟨_, h.1⟩
  | name o x => exact ⟨_, h.1⟩
  | unary o op e => exact ⟨_, h.1⟩
  | operation o op l r => exact ⟨_, h.choose_spec.1⟩
  | assign o x e => exact ⟨_, h.choose_spec.1⟩
  | call o f args => exact ⟨_, h.choose_spec.1⟩

/-- An expression takes at least one token. -/
theorem Expr.Fits.lt {e : Expr Origin} (h : e.Fits tokens lo hi) : lo < hi := by
  obtain ⟨i, hi⟩ := h.sits
  exact hi.lt

/-- A wider space does as well. -/
theorem Expr.Fits.mono {e : Expr Origin} (h : e.Fits tokens lo hi) (hlo : lo' ≤ lo)
    (hhi : hi ≤ hi') : e.Fits tokens lo' hi' := by
  cases e with
  | literal o v => exact ⟨h.1.mono hlo hhi, h.2⟩
  | name o x => exact ⟨h.1.mono hlo hhi, h.2⟩
  | unary o op e => exact ⟨h.1.mono hlo hhi, h.2⟩
  | operation o op l r =>
    obtain ⟨i, hsits, hparts⟩ := h
    exact ⟨i, hsits.mono hlo hhi, hparts⟩
  | assign o x e =>
    obtain ⟨i, hsits, hparts⟩ := h
    exact ⟨i, hsits.mono hlo hhi, hparts⟩
  | call o f args =>
    obtain ⟨i, hsits, hparts⟩ := h
    exact ⟨i, hsits.mono hlo hhi, hparts⟩

/-- The place of a statement is that of its first token. -/
theorem Stmt.Fits.sits {s : Stmt Origin} (h : s.Fits tokens lo hi) :
    s.note.Sits tokens lo hi s.note.start := by
  match s with
  | .expr _ _ | .declare _ _ _ | .ret _ _ | .print _ _ | .block _ _ | .loop _ _ _
  | .function _ _ _ _ | .cond _ _ _ none | .cond _ _ _ (some _) => exact h.1
  | .breakLoop _ | .continueLoop _ => exact h

/-- A statement fits in a wider space, as its range does. -/
theorem Stmt.Fits.mono {s : Stmt Origin} (h : s.Fits tokens lo hi) (hlo : lo' ≤ lo)
    (hhi : hi ≤ hi') : s.Fits tokens lo' hi' := by
  match s with
  | .expr _ _ | .declare _ _ _ | .ret _ _ | .print _ _ | .block _ _ | .loop _ _ _
  | .function _ _ _ _ | .cond _ _ _ none | .cond _ _ _ (some _) => exact ⟨h.1.mono hlo hhi, h.2⟩
  | .breakLoop _ | .continueLoop _ => exact Origin.Sits.mono h hlo hhi

theorem Expr.widens_fits (tokens : List Token) : Widens (Expr.Fits tokens) :=
  fun _ _ _ _ _ h => h.mono

theorem Stmt.widens_fits (tokens : List Token) : Widens (Stmt.Fits tokens) :=
  fun _ _ _ _ _ h => h.mono

/-- A list of expressions fits just if it is a row of expressions that fit. -/
theorem Expr.allFit_iff {es : List (Expr Origin)} :
    Expr.AllFit tokens lo hi es ↔ Row (Expr.Fits tokens) lo hi es := by
  induction es generalizing lo with
  | nil => exact Iff.rfl
  | cons e es ih => exact exists_congr fun mid => and_congr_right fun _ => ih

/-- A body fits just if it is a row of statements that fit. -/
theorem Stmt.allFit_iff {body : List (Stmt Origin)} :
    Stmt.AllFit tokens lo hi body ↔ Row (Stmt.Fits tokens) lo hi body := by
  induction body generalizing lo with
  | nil => exact Iff.rfl
  | cons s rest ih => exact exists_congr fun mid => and_congr_right fun _ => ih

theorem Expr.AllFit.mono {es : List (Expr Origin)} (h : Expr.AllFit tokens lo hi es)
    (hlo : lo' ≤ lo) (hhi : hi ≤ hi') : Expr.AllFit tokens lo' hi' es :=
  Expr.allFit_iff.mpr ((Expr.allFit_iff.mp h).mono (Expr.widens_fits tokens) hlo hhi)

theorem Stmt.AllFit.mono {body : List (Stmt Origin)} (h : Stmt.AllFit tokens lo hi body)
    (hlo : lo' ≤ lo) (hhi : hi ≤ hi') : Stmt.AllFit tokens lo' hi' body :=
  Stmt.allFit_iff.mpr ((Stmt.allFit_iff.mp h).mono (Stmt.widens_fits tokens) hlo hhi)

end Fits

namespace Parse

variable {β γ : Type} {tokens : List Token} {s s' : State}

/-! ## Places in the token list -/

/-- Parsing stands at a place of the token list. -/
structure At (tokens : List Token) (s : State) : Prop where
  rest : s.rest = tokens.drop s.position
  position : s.position ≤ tokens.length
  lastSpan : s.rest = [] → ∃ t ∈ tokens, t.span = s.lastSpan

namespace At

/-- Reading starts at position zero, with the place of the first token at hand. -/
theorem initial (hne : tokens ≠ []) : At tokens (.initial tokens) :=
  ⟨rfl, Nat.zero_le _, fun h => absurd h hne⟩

/-- Only the three fields that are about the list count. -/
theorem congr (h : At tokens s) (hrest : s'.rest = s.rest) (hposition : s'.position = s.position)
    (hlast : s'.lastSpan = s.lastSpan) : At tokens s' := by
  constructor
  · rw [hrest, hposition]
    exact h.rest
  · rw [hposition]
    exact h.position
  · rw [hrest, hlast]
    exact h.lastSpan

/-- Passing tokens moves the position along the list. -/
theorem drop (h : At tokens s) (n : Nat) : At tokens (s.drop n) := by
  have hlength : s.rest.length = tokens.length - s.position := by
    rw [h.rest, List.length_drop]
  have htake : (s.rest.take n).length = min n s.rest.length := List.length_take
  have hposition := h.position
  constructor
  · show s.rest.drop n = tokens.drop (s.position + (s.rest.take n).length)
    rw [← List.drop_drop, ← h.rest, htake]
    rcases Nat.le_total n s.rest.length with hn | hn
    · rw [Nat.min_eq_left hn]
    · rw [Nat.min_eq_right hn, List.drop_eq_nil_of_le hn, List.drop_length]
  · show s.position + (s.rest.take n).length ≤ tokens.length
    omega
  · intro hend
    show ∃ t ∈ tokens, t.span = ((s.rest.take n).getLast?.map Token.span).getD s.lastSpan
    cases hlast : (s.rest.take n).getLast? with
    | some t =>
      have ht : t ∈ s.rest := List.mem_of_mem_take (List.mem_of_getLast? hlast)
      rw [h.rest] at ht
      exact ⟨t, List.mem_of_mem_drop ht, rfl⟩
    | none =>
      -- nothing is dropped, so nothing was left before
      have hnone : s.rest.take n = [] := List.getLast?_eq_none_iff.mp hlast
      have hrest : s.rest = [] := by
        rw [← List.take_append_drop n s.rest, hnone]
        exact hend
      exact h.lastSpan hrest

/-- The place reported is that of a token. -/
theorem span (h : At tokens s) : ∃ t ∈ tokens, t.span = s.span := by
  unfold State.span
  split
  · next t ts hrest =>
    have ht : t ∈ s.rest := by
      rw [hrest]
      exact List.mem_cons_self ..
    rw [h.rest] at ht
    exact ⟨t, List.mem_of_mem_drop ht, rfl⟩
  · next hrest => exact h.lastSpan hrest

/-- The place reported is that of the next token. -/
theorem getElem?_span (h : At tokens s) (hlt : s.position < tokens.length) :
    (tokens[s.position]?).map Token.span = some s.span := by
  have hrest := h.rest
  rw [List.drop_eq_getElem_cons hlt] at hrest
  unfold State.span
  rw [hrest, List.getElem?_eq_getElem hlt]
  rfl

/-- The position counts the tokens passed. -/
theorem position_next (h : s.rest ≠ []) : s.next.position = s.position + 1 := by
  obtain ⟨t, ts, hrest⟩ := List.exists_cons_of_ne_nil h
  show s.position + (s.rest.take 1).length = _
  rw [hrest]
  rfl

/-- A node that starts before the next token and ends further on, with the place of that token. -/
theorem sits (h : At tokens s) (h' : At tokens s') (hlt : s.position < s'.position) {start : Nat}
    (hstart : start ≤ s.position) :
    Origin.Sits tokens start s'.position s.position ⟨s.span, start, s'.position⟩ :=
  ⟨Nat.le_refl _, hstart, hlt, Nat.le_refl _,
    h.getElem?_span (Nat.lt_of_lt_of_le hlt h'.position)⟩

end At

/-! ## What a parser tells -/

/-- A result at a place of the list with the property `Q`, or an error at a token. -/
def Told (tokens : List Token) (Q : Nat → β → Prop) : EStateM.Result ParseError State β → Prop
  | .ok b s => At tokens s ∧ Q s.position b
  | .error e _ => ∃ t ∈ tokens, t.span = e.span

/-- From every place of the list, the result is related to the positions before and after. -/
def Tells (tokens : List Token) (p : Parse β) (R : Nat → Nat → β → Prop) : Prop :=
  ∀ s, At tokens s → Told tokens (R s.position) (p s)

variable {p : Parse β} {f : β → Parse γ} {Q : Nat → β → Prop} {Q' : Nat → γ → Prop}
  {R : Nat → Nat → β → Prop}

/-- The second part starts where the first has ended. -/
theorem Told.bind (h : Told tokens Q (p s))
    (hnext : ∀ b s', At tokens s' → Q s'.position b → Told tokens Q' (f b s')) :
    Told tokens Q' ((p >>= f) s) := by
  show Told tokens Q' (EStateM.bind p f s)
  unfold EStateM.bind
  cases hp : p s with
  | ok b s₁ =>
    rw [hp] at h
    exact hnext b s₁ h.1 h.2
  | error e s₁ =>
    rw [hp] at h
    exact h

/-- What is told may be weakened. -/
theorem Told.mono {Q₁ : Nat → β → Prop} {r : EStateM.Result ParseError State β}
    (h : Told tokens Q r) (hmono : ∀ i b, Q i b → Q₁ i b) : Told tokens Q₁ r := by
  cases r with
  | ok b s => exact ⟨h.1, hmono _ b h.2⟩
  | error e s => exact h

/-- A result is told where the parser stands. -/
theorem told_pure (h : At tokens s) {b : β} (hb : Q s.position b) :
    Told tokens Q ((pure b : Parse β) s) := ⟨h, hb⟩

/-- Reading the next token, of which there is one. -/
theorem told_advance {f : Unit → Parse γ} (h : At tokens s) (hne : s.rest ≠ [])
    (hnext : ∀ s', At tokens s' → s'.position = s.position + 1 → Told tokens Q' (f () s')) :
    Told tokens Q' ((advance >>= f) s) := hnext s.next (h.drop 1) (At.position_next hne)

/-- Reading newlines. -/
theorem told_skipNewlines {f : Unit → Parse γ} (h : At tokens s)
    (hnext : ∀ s', At tokens s' → s.position ≤ s'.position → Told tokens Q' (f () s')) :
    Told tokens Q' ((skipNewlines >>= f) s) :=
  hnext s.skipNewlines (h.drop _) (Nat.le_add_right ..)

/-- Reading newlines and semicolons. -/
theorem told_skipSeparators {f : Unit → Parse γ} (h : At tokens s)
    (hnext : ∀ s', At tokens s' → s.position ≤ s'.position → Told tokens Q' (f () s')) :
    Told tokens Q' ((skipSeparators >>= f) s) :=
  hnext s.skipSeparators (h.drop _) (Nat.le_add_right ..)

/-- A tidy-up that only touches counters. -/
theorem told_always {tidy : State → State} (h : Told tokens Q (p s))
    (htidy : ∀ s, (tidy s).rest = s.rest ∧ (tidy s).position = s.position ∧
      (tidy s).lastSpan = s.lastSpan) : Told tokens Q (always tidy p s) := by
  unfold always
  cases hp : p s with
  | ok b s₁ =>
    rw [hp] at h
    obtain ⟨hrest, hposition, hlast⟩ := htidy s₁
    refine ⟨h.1.congr hrest hposition hlast, ?_⟩
    rw [hposition]
    exact h.2
  | error e s₁ =>
    rw [hp] at h
    exact h

/-- Too deep is reported at the token that comes next. -/
theorem told_tooDeep (h : At tokens s) : Told tokens Q ((tooDeep : Parse β) s) := h.span

/-- So is a token that should not be there. -/
theorem told_unexpected (h : At tokens s) (expected : Expectation) :
    Told tokens Q ((unexpected expected : Parse β) s) := by
  have hspan : (s.unexpected expected).span = s.span := by
    unfold State.unexpected State.span
    split
    · next hrest => rw [hrest]
    · next t ts hrest =>
      rw [hrest]
      split <;> rfl
  show ∃ t ∈ tokens, t.span = (s.unexpected expected).span
  rw [hspan]
  exact h.span

/-- A kind comes next only if a token does. -/
theorem rest_ne_nil_of_kind? {kind : TokenKind} (h : s.kind? = some kind) : s.rest ≠ [] := by
  intro hrest
  unfold State.kind? at h
  rw [hrest] at h
  exact absurd h (by simp)

/-- So does a symbol. -/
theorem rest_ne_nil_of_atSymbol {x : Symbol} (h : s.atSymbol x = true) : s.rest ≠ [] :=
  rest_ne_nil_of_kind? (eq_of_beq h)

/-- A symbol is one token. -/
theorem tells_expect (x : Symbol) (expected : Expectation) :
    Tells tokens (expect x expected) fun lo hi _ => hi = lo + 1 := by
  intro s h
  rw [expect, get_bind]
  split
  · next hx => exact ⟨h.drop 1, At.position_next (rest_ne_nil_of_atSymbol hx)⟩
  · exact told_unexpected h expected

/-- A name is one token. -/
theorem tells_identifier (expected : Expectation) :
    Tells tokens (identifier expected) fun lo hi _ => hi = lo + 1 := by
  intro s h
  rw [identifier, get_bind]
  cases hrest : s.rest with
  | nil => exact told_unexpected h expected
  | cons t ts =>
    have hne : s.rest ≠ [] := by
      rw [hrest]
      exact List.cons_ne_nil t ts
    dsimp only
    split
    · exact told_advance h hne fun s' hs' hpos => told_pure hs' hpos
    · exact told_unexpected h expected

/-- Going one level deeper. -/
theorem told_enter {f : Unit → Parse γ} (h : At tokens s)
    (hnext : ∀ depth, At tokens (s.atDepth depth) → Told tokens Q' (f () (s.atDepth depth))) :
    Told tokens Q' ((enter >>= f) s) := by
  rw [enter, bind_assoc, get_bind]
  split
  · exact hnext (s.depth + 1) (h.congr rfl rfl rfl)
  · exact h.span

/-- A level of nesting changes the depth only. -/
theorem told_nested (h : At tokens s)
    (hnext : ∀ depth, At tokens (s.atDepth depth) → Told tokens Q (p (s.atDepth depth))) :
    Told tokens Q (nested p s) := by
  refine told_enter h fun depth hdepth => ?_
  exact told_always (hnext depth hdepth) fun _ => ⟨rfl, rfl, rfl⟩

theorem Tells.nested (h : Tells tokens p R) : Tells tokens (nested p) R :=
  fun s hs => told_nested hs fun depth hdepth => h (s.atDepth depth) hdepth

/-! ## Lists and chains -/

/-- Items after commas extend the row, by induction on the bound. -/
theorem commaList_tells {item : List β → Parse β} (hitem : ∀ before, Tells tokens (item before) R)
    (hR : Widens R) (n start : Nat) :
    ∀ before s, At tokens s → Row R start s.position before →
      Told tokens (Row R start) (commaList item n before s) := by
  induction n with
  | zero =>
    intro before s hs _
    exact told_tooDeep hs
  | succ n ih =>
    intro before s hs hbefore
    rw [commaList]
    refine (hitem before s hs).bind fun x s₁ hs₁ hx => ?_
    -- the item stands behind those before it
    have hitems := hbefore.concat hR hx
    refine told_skipNewlines hs₁ fun s₂ hs₂ hle => ?_
    rw [get_bind]
    split
    · -- a comma, and one more item
      next hcomma =>
      refine told_advance hs₂ (rest_ne_nil_of_atSymbol hcomma) fun s₃ hs₃ hpos => ?_
      refine told_skipNewlines hs₃ fun s₄ hs₄ hle' => ?_
      exact ih (before ++ [x]) s₄ hs₄ (hitems.mono hR (Nat.le_refl _) (by omega))
    · -- no comma: the list ends here
      exact told_pure hs₂ (hitems.mono hR (Nat.le_refl _) hle)

/-- What follows an opening parenthesis. -/
theorem parenList_tells {item : List β → Parse β} (hitem : ∀ before, Tells tokens (item before) R)
    (hR : Widens R) (n : Nat) : Tells tokens (parenList n item) (Row R) := by
  intro s hs
  have hclose : ∀ items s₁, At tokens s₁ → Row R s.position s₁.position items →
      Told tokens (Row R s.position)
        ((expect .rightParen .rightParen >>= fun _ => pure items : Parse (List β)) s₁) := by
    intro items s₁ hs₁ hitems
    refine (tells_expect _ _ s₁ hs₁).bind fun _ s₂ hs₂ hpos => ?_
    exact told_pure hs₂ (hitems.mono hR (Nat.le_refl _) (by omega))
  rw [parenList]
  refine told_skipNewlines hs fun s₁ hs₁ hle => ?_
  rw [get_bind]
  split
  · rw [pure_bind]
    exact hclose [] s₁ hs₁ hle
  · exact (commaList_tells hitem hR n s.position [] s₁ hs₁ hle).bind hclose

/-- What every link keeps, a chain keeps. -/
theorem links_tells {more : State → Bool} {link : β → Parse β}
    (hmore : ∀ s depth, more s = true → more (s.atDepth depth) = true)
    (hlink : ∀ left s, At tokens s → more s = true → Q s.position left →
      Told tokens Q (link left s)) (n : Nat) : ∀ chained left s, At tokens s → Q s.position left →
      Told tokens Q (links more link n chained left s) := by
  induction n with
  | zero =>
    intro chained left s hs _
    exact told_tooDeep hs
  | succ n ih =>
    intro chained left s hs hleft
    rw [links, get_bind]
    split
    · next h =>
      -- what the link makes is kept, whatever the nesting
      have hnext : ∀ e s₁, At tokens s₁ → Q s₁.position e →
          Told tokens Q (links more link n true e s₁) := fun e s₁ => ih true e s₁
      cases chained with
      | true =>
        refine told_enter hs fun depth hdepth => ?_
        exact (hlink left _ hdepth (hmore s depth h) hleft).bind hnext
      | false => exact (hlink left s hs h hleft).bind hnext
    · -- no link: the chain ends here
      exact told_pure hs hleft

/-- A chain starts with its first operand, and every link fits from there on. -/
theorem chain_tells {first : Parse β} {more : State → Bool} {link : β → Parse β}
    (hmore : ∀ s depth, more s = true → more (s.atDepth depth) = true)
    (hlink : ∀ left s, At tokens s → more s = true → Q s.position left →
      Told tokens Q (link left s)) (n : Nat) (hfirst : Told tokens Q (first s)) :
    Told tokens Q (chain n first more link s) := by
  rw [chain, get_bind]
  refine hfirst.bind fun left s₁ hs₁ hleft => ?_
  refine (links_tells hmore hlink n false left s₁ hs₁ hleft).bind fun whole s₂ hs₂ hwhole => ?_
  exact ⟨hs₂.congr rfl rfl rfl, hwhole⟩

/-! ## Expressions -/

/-- A parser of expressions that fit. -/
abbrev TellsExpr (tokens : List Token) (p : Parse (Expr Origin)) : Prop :=
  Tells tokens p (Expr.Fits tokens)

/-- The target is one token, so an assignment starts where its target does. -/
theorem assignment_tells {operand value : Parse (Expr Origin)} (hoperand : TellsExpr tokens operand)
    (hvalue : TellsExpr tokens value) : TellsExpr tokens (assignment operand value) := by
  intro s hs
  rw [assignment, get_bind]
  refine (hoperand s hs).bind fun target s₁ hs₁ htarget => ?_
  rw [get_bind]
  split
  · next hassign =>
    cases bareName? target s.position s₁.position with
    | none =>
      -- the error is reported at the operand
      obtain ⟨i, hsits⟩ := htarget.sits
      obtain ⟨t, ht, hspan⟩ := Option.map_eq_some_iff.mp hsits.span
      exact ⟨t, List.mem_of_getElem? ht, hspan⟩
    | some x =>
      have hlt := htarget.lt
      refine told_advance hs₁ (rest_ne_nil_of_atSymbol hassign) fun s₂ hs₂ hpos => ?_
      refine told_skipNewlines hs₂ fun s₃ hs₃ hle => ?_
      refine (hvalue s₃ hs₃).bind fun e s₄ hs₄ he => ?_
      have hlt' := he.lt
      refine told_pure hs₄ ⟨s₁.position, hs₁.sits hs₄ (by omega) (by omega), ?_⟩
      exact he.mono (by omega) (Nat.le_refl _)
  · exact told_pure hs₁ htarget

/-- So does an operator. -/
theorem rest_ne_nil_of_operator? {prec : Precedence} {op : Operator}
    (h : s.operator? prec = some op) : s.rest ≠ [] := by
  intro hrest
  unfold State.operator? State.kind? at h
  rw [hrest] at h
  exact absurd h (by simp)

/-- An operation starts where its left operand does. -/
theorem operationLink_tells {prec : Precedence} {operand : Parse (Expr Origin)}
    (hoperand : TellsExpr tokens operand) {start : Nat} (left : Expr Origin) (s : State)
    (hs : At tokens s) (hmore : (s.operator? prec).isSome = true)
    (hleft : left.Fits tokens start s.position) :
    Told tokens (Expr.Fits tokens start) (operationLink prec operand start left s) := by
  obtain ⟨op, hop⟩ := Option.isSome_iff_exists.mp hmore
  have hlt := hleft.lt
  rw [operationLink, get_bind, hop]
  refine told_advance hs (rest_ne_nil_of_operator? hop) fun s₁ hs₁ hpos => ?_
  refine told_skipNewlines hs₁ fun s₂ hs₂ hle => ?_
  refine (hoperand s₂ hs₂).bind fun right s₃ hs₃ hright => ?_
  have hlt' := hright.lt
  refine told_pure hs₃ ⟨s.position, hs.sits hs₃ (by omega) (by omega), hleft, ?_⟩
  exact hright.mono (by omega) (Nat.le_refl _)

/-- The operations of one level, if the operands fit. -/
theorem operations_tells {operand : Parse (Expr Origin)} (hoperand : TellsExpr tokens operand)
    (n : Nat) (prec : Precedence) : TellsExpr tokens (operations n prec operand) := by
  intro s hs
  rw [operations, get_bind]
  refine chain_tells ?_ (operationLink_tells hoperand) n (hoperand s hs)
  exact fun _ _ h => h

/-- Arguments in parentheses, from just behind the opening one. -/
theorem arguments_tells {argument : Parse (Expr Origin)} (hargument : TellsExpr tokens argument)
    (n : Nat) : Tells tokens (parenList n fun _ => argument) fun lo hi args =>
      lo ≤ hi ∧ Expr.AllFit tokens lo hi args := by
  intro s hs
  refine (parenList_tells (fun _ => hargument) (Expr.widens_fits tokens) n s hs).mono fun i args hargs => ?_
  exact ⟨hargs.le fun _ _ _ he => Nat.le_of_lt he.lt, Expr.allFit_iff.mpr hargs⟩

/-- A call starts where its callee does and ends with its parenthesis. -/
theorem callLink_tells {argument : Parse (Expr Origin)} (hargument : TellsExpr tokens argument)
    (n : Nat) {start : Nat} (callee : Expr Origin) (s : State) (hs : At tokens s)
    (hmore : s.atSymbol .leftParen = true) (hcallee : callee.Fits tokens start s.position) :
    Told tokens (Expr.Fits tokens start) (callLink n argument start callee s) := by
  have hlt := hcallee.lt
  rw [callLink, get_bind]
  refine told_advance hs (rest_ne_nil_of_atSymbol hmore) fun s₁ hs₁ hpos => ?_
  refine (arguments_tells hargument n s₁ hs₁).bind fun args s₂ hs₂ hargs => ?_
  obtain ⟨hle, hargs⟩ := hargs
  rw [hpos] at hle hargs
  exact told_pure hs₂ ⟨s.position, hs.sits hs₂ (by omega) (by omega), hcallee, hargs⟩

/-- A callee and the calls behind it. -/
theorem calls_tells {callee argument : Parse (Expr Origin)} (hcallee : TellsExpr tokens callee)
    (hargument : TellsExpr tokens argument) (n : Nat) :
    TellsExpr tokens (calls n callee argument) := by
  intro s hs
  rw [calls, get_bind]
  refine chain_tells ?_ (callLink_tells hargument n) n (hcallee s hs)
  exact fun _ _ h => h

/-- A sign takes one token more than its operand. -/
theorem unaryOr_tells {operand call : Parse (Expr Origin)} (hoperand : TellsExpr tokens operand)
    (hcall : TellsExpr tokens call) : TellsExpr tokens (unaryOr operand call) := by
  intro s hs
  rw [unaryOr, get_bind]
  cases hop : s.unaryOp? with
  | none => exact hcall s hs
  | some op =>
    have hne : s.rest ≠ [] := by
      intro hrest
      unfold State.unaryOp? State.kind? at hop
      rw [hrest] at hop
      exact absurd hop (by simp)
    refine told_advance hs hne fun s₁ hs₁ hpos => ?_
    refine (hoperand.nested s₁ hs₁).bind fun e s₂ hs₂ he => ?_
    have hlt := he.lt
    rw [hpos] at he
    exact told_pure hs₂ ⟨hs.sits hs₂ (by omega) (Nat.le_refl _), he⟩

/-- The node of a single token. -/
theorem fits_of_leaf? {t : Token} {node : Origin → Expr Origin} (h : leaf? t = some node)
    {lo hi : Nat} {o : Origin} (ho : o.Sits tokens lo hi o.start) (hone : o.stop = o.start + 1) :
    (node o).Fits tokens lo hi := by
  obtain ⟨kind, text, span⟩ := t
  match kind with
  | .integer _ | .float _ | .str _ | .identifier =>
    cases h
    exact ⟨ho, hone⟩
  | .keyword k => cases k <;> cases h <;> exact ⟨ho, hone⟩
  | .symbol _ | .newline | .eof => cases h

/-- A token by itself; in parentheses the node keeps its own range. -/
theorem primary_tells {inner : Parse (Expr Origin)} (hinner : TellsExpr tokens inner) :
    TellsExpr tokens (primary inner) := by
  intro s hs
  rw [primary, get_bind]
  split
  · next hparen =>
    refine told_advance hs (rest_ne_nil_of_atSymbol hparen) fun s₁ hs₁ hpos => ?_
    refine told_skipNewlines hs₁ fun s₂ hs₂ hle => ?_
    refine (hinner s₂ hs₂).bind fun e s₃ hs₃ he => ?_
    refine told_skipNewlines hs₃ fun s₄ hs₄ hle' => ?_
    refine (tells_expect _ _ s₄ hs₄).bind fun _ s₅ hs₅ hpos' => ?_
    -- parentheses leave no node, so the expression has space on both sides
    exact told_pure hs₅ (he.mono (by omega) (by omega))
  · cases hleaf : s.rest.head?.bind leaf? with
    | none => exact told_unexpected hs .expression
    | some node =>
      obtain ⟨t, ht, hnode⟩ := Option.bind_eq_some_iff.mp hleaf
      have hne : s.rest ≠ [] := by
        intro hrest
        rw [hrest] at ht
        exact absurd ht (by simp)
      refine told_advance hs hne fun s₁ hs₁ hpos => ?_
      exact told_pure hs₁ (fits_of_leaf? hnode (hs.sits hs₁ (by omega) (Nat.le_refl _)) hpos)

/-- **Expressions fit**, by induction on the bound: each rule uses the rules below it at a smaller
    bound. -/
theorem expressions_tell (tokens : List Token) (n : Nat) :
    TellsExpr tokens (expression n) ∧ (∀ prec, TellsExpr tokens (level n prec)) ∧
      TellsExpr tokens (unary n) := by
  induction n with
  | zero => exact ⟨fun _ => told_tooDeep, fun _ _ => told_tooDeep, fun _ => told_tooDeep⟩
  | succ n ih =>
    obtain ⟨hexpr, hlevel, hunary⟩ := ih
    refine ⟨(assignment_tells (hlevel .or) hexpr).nested, fun prec => ?_, ?_⟩
    · rw [level]
      split
      · exact hunary
      · exact operations_tells (hlevel prec.tighter) n prec
    · exact unaryOr_tells hunary (calls_tells (primary_tells hexpr) hexpr n)

/-! ## Statements -/

/-- From every place of the list with a token left, the result is related to the positions before
    and after. -/
def TellsNext (tokens : List Token) (p : Parse β) (R : Nat → Nat → β → Prop) : Prop :=
  ∀ s, At tokens s → s.rest ≠ [] → Told tokens (R s.position) (p s)

/-- A block reaches over its opening brace and its statements. -/
def BlockFits (tokens : List Token) (lo hi : Nat) (body : List (Stmt Origin)) : Prop :=
  lo < hi ∧ Stmt.AllFit tokens (lo + 1) hi body

/-- A statement still without its origin fits with the range that was read. -/
def NodeFits (tokens : List Token) (lo hi : Nat) (node : Origin → Stmt Origin) : Prop :=
  lo < hi ∧ ∀ span, Origin.Sits tokens lo hi lo ⟨span, lo, hi⟩ →
    (node ⟨span, lo, hi⟩).Fits tokens lo hi

variable {expression : Parse (Expr Origin)} {block : Parse (List (Stmt Origin))}

/-- A declaration ends with its value, or with its name. -/
theorem declaration_tells (hexpr : TellsExpr tokens expression) :
    TellsNext tokens (declaration expression) (NodeFits tokens) := by
  intro s hs hne
  rw [declaration]
  refine told_advance hs hne fun s₁ hs₁ hpos => ?_
  refine (tells_identifier _ s₁ hs₁).bind fun x s₂ hs₂ hpos' => ?_
  rw [get_bind]
  split
  · next hassign =>
    refine told_advance hs₂ (rest_ne_nil_of_atSymbol hassign) fun s₃ hs₃ hpos₃ => ?_
    refine told_skipNewlines hs₃ fun s₄ hs₄ hle => ?_
    refine (hexpr s₄ hs₄).bind fun e s₅ hs₅ he => ?_
    have hlt := he.lt
    refine told_pure hs₅ ⟨by omega, fun span ho => ⟨ho, ?_⟩⟩
    exact he.mono (show s.position + 1 ≤ s₄.position by omega) (Nat.le_refl _)
  · exact told_pure hs₂ ⟨by omega, fun span ho => ⟨ho, trivial⟩⟩

/-- The counter of functions is no place. -/
theorem tells_inFunction (h : Tells tokens p R) : Tells tokens (inFunction p) R := by
  intro s hs
  rw [inFunction, get_bind]
  have hinner : At tokens { s with functions := s.functions + 1, loops := 0 } :=
    hs.congr rfl rfl rfl
  exact told_always (h _ hinner) fun _ => ⟨rfl, rfl, rfl⟩

/-- Nor is the counter of loops. -/
theorem tells_inLoop (h : Tells tokens p R) : Tells tokens (inLoop p) R := by
  intro s hs
  have hinner : At tokens { s with loops := s.loops + 1 } := hs.congr rfl rfl rfl
  exact told_always (h _ hinner) fun _ => ⟨rfl, rfl, rfl⟩

/-- Parameters are names and no nodes, so only the position is told. -/
theorem parameter_tells (before : List String) :
    Tells tokens (parameter before) fun lo hi _ => lo ≤ hi := by
  intro s hs
  rw [parameter, get_bind]
  refine (tells_identifier _ s hs).bind fun x s₁ hs₁ hpos => ?_
  split
  · exact hs.span
  · exact told_pure hs₁ (by omega)

/-- A definition ends with its body. -/
theorem definition_tells (n : Nat) (hblock : Tells tokens block (BlockFits tokens)) :
    TellsNext tokens (definition n block) (NodeFits tokens) := by
  intro s hs hne
  rw [definition]
  refine told_advance hs hne fun s₁ hs₁ hpos₁ => ?_
  refine (tells_identifier _ s₁ hs₁).bind fun f s₂ hs₂ hpos₂ => ?_
  refine (tells_expect _ _ s₂ hs₂).bind fun _ s₃ hs₃ hpos₃ => ?_
  refine (parenList_tells parameter_tells ?_ n s₃ hs₃).bind fun params s₄ hs₄ hparams => ?_
  · intro lo lo' hi hi' x hle hlo hhi
    omega
  · have hle := hparams.le fun _ _ _ hle => hle
    refine (tells_inFunction hblock s₄ hs₄).bind fun body s₅ hs₅ hbody => ?_
    obtain ⟨hlt, hbody⟩ := hbody
    refine told_pure hs₅ ⟨by omega, fun span ho => ⟨ho, ?_⟩⟩
    exact hbody.mono (show s.position + 1 ≤ s₄.position + 1 by omega) (Nat.le_refl _)

/-- A loop: the condition, then the body. -/
theorem whileLoop_tells (hexpr : TellsExpr tokens expression)
    (hblock : Tells tokens block (BlockFits tokens)) :
    TellsNext tokens (whileLoop expression block) (NodeFits tokens) := by
  intro s hs hne
  rw [whileLoop]
  refine told_advance hs hne fun s₁ hs₁ hpos => ?_
  refine (hexpr s₁ hs₁).bind fun c s₂ hs₂ hc => ?_
  have hlt := hc.lt
  refine (tells_inLoop hblock s₂ hs₂).bind fun body s₃ hs₃ hbody => ?_
  obtain ⟨hlt', hbody⟩ := hbody
  rw [hpos] at hc
  refine told_pure hs₃ ⟨by omega, fun span ho => ⟨ho, s₂.position, hc, ?_⟩⟩
  exact hbody.mono (Nat.le_succ _) (Nat.le_refl _)

/-- A `return` ends with its value, or with the keyword. -/
theorem returned_tells (hexpr : TellsExpr tokens expression) :
    TellsNext tokens (returned expression) (NodeFits tokens) := by
  intro s hs hne
  rw [returned, get_bind]
  split
  · exact hs.span
  · refine told_advance hs hne fun s₁ hs₁ hpos => ?_
    rw [get_bind]
    split
    · exact told_pure hs₁ ⟨by omega, fun span ho => ⟨ho, trivial⟩⟩
    · refine (hexpr s₁ hs₁).bind fun e s₂ hs₂ he => ?_
      have hlt := he.lt
      rw [hpos] at he
      exact told_pure hs₂ ⟨by omega, fun span ho => ⟨ho, he⟩⟩

/-- A `print` ends with the parenthesis behind its arguments. -/
theorem printed_tells (n : Nat) (hexpr : TellsExpr tokens expression) :
    TellsNext tokens (printed n expression) (NodeFits tokens) := by
  intro s hs hne
  rw [printed]
  refine told_advance hs hne fun s₁ hs₁ hpos => ?_
  refine (tells_expect _ _ s₁ hs₁).bind fun _ s₂ hs₂ hpos' => ?_
  refine (arguments_tells hexpr n s₂ hs₂).bind fun args s₃ hs₃ hargs => ?_
  obtain ⟨hle, hargs⟩ := hargs
  refine told_pure hs₃ ⟨by omega, fun span ho => ⟨ho, ?_⟩⟩
  exact hargs.mono (show s.position + 1 ≤ s₂.position by omega) (Nat.le_refl _)

/-- A `break` or `continue` is a single token. -/
theorem loopControl_tells (keyword : Keyword) (node : Origin → Stmt Origin)
    (hnode : ∀ lo hi o, Origin.Sits tokens lo hi o.start o → (node o).Fits tokens lo hi) :
    TellsNext tokens (loopControl keyword node) (NodeFits tokens) := by
  intro s hs hne
  rw [loopControl, get_bind]
  split
  · exact hs.span
  · refine told_advance hs hne fun s₁ hs₁ hpos => ?_
    exact told_pure hs₁ ⟨by omega, fun span ho => hnode _ _ _ ho⟩

/-- The first token tells the rule; all of them tell a node that fits. -/
theorem simpleStatement_tells (n : Nat) (hexpr : TellsExpr tokens expression)
    (hblock : Tells tokens block (BlockFits tokens)) :
    Tells tokens (simpleStatement n expression block) (NodeFits tokens) := by
  intro s hs
  rw [simpleStatement_eq]
  split
  · next h => exact declaration_tells hexpr s hs (rest_ne_nil_of_kind? h)
  · next h => exact definition_tells n hblock s hs (rest_ne_nil_of_kind? h)
  · next h => exact whileLoop_tells hexpr hblock s hs (rest_ne_nil_of_kind? h)
  · next h => exact returned_tells hexpr s hs (rest_ne_nil_of_kind? h)
  · next h => exact loopControl_tells _ .breakLoop (fun _ _ _ ho => ho) s hs (rest_ne_nil_of_kind? h)
  · next h => exact loopControl_tells _ .continueLoop (fun _ _ _ ho => ho) s hs (rest_ne_nil_of_kind? h)
  · next h => exact printed_tells n hexpr s hs (rest_ne_nil_of_kind? h)
  · refine (hblock s hs).bind fun body s₁ hs₁ hbody => ?_
    exact told_pure hs₁ ⟨hbody.1, fun span ho => ⟨ho, hbody.2⟩⟩
  · refine (hexpr s hs).bind fun e s₁ hs₁ he => ?_
    exact told_pure hs₁ ⟨he.lt, fun span ho => ⟨ho, he⟩⟩

/-- A function of the result. -/
theorem Told.map {g : β → γ} (h : Told tokens Q (p s)) (hg : ∀ i b, Q i b → Q' i (g b)) :
    Told tokens Q' ((g <$> p) s) := by
  rw [map_eq_pure_bind]
  exact h.bind fun b s' hs' hb => told_pure hs' (hg _ b hb)

/-- The branch after `else` is a block or another conditional. -/
theorem elseBranch_tells {conditional : Parse (Stmt Origin)}
    (hcond : TellsNext tokens conditional (Stmt.Fits tokens))
    (hblock : Tells tokens block (BlockFits tokens)) :
    Tells tokens (elseBranch conditional block) (Stmt.Fits tokens) := by
  intro s hs
  rw [elseBranch, get_bind]
  split
  · next hif =>
    refine told_nested hs fun depth hdepth => hcond _ hdepth ?_
    exact rest_ne_nil_of_kind? (eq_of_beq hif)
  · refine (hblock s hs).bind fun body s₁ hs₁ hbody => ?_
    exact told_pure hs₁ ⟨hs.sits hs₁ hbody.1 (Nat.le_refl _), hbody.2⟩

/-- A conditional: condition, block, and the branch after `else` if there is one. -/
theorem conditional_tells {branch : Parse (Stmt Origin)} (hexpr : TellsExpr tokens expression)
    (hblock : Tells tokens block (BlockFits tokens))
    (hbranch : Tells tokens branch (Stmt.Fits tokens)) :
    TellsNext tokens (conditional expression block branch) (Stmt.Fits tokens) := by
  intro s hs hne
  rw [conditional, get_bind]
  refine told_advance hs hne fun s₁ hs₁ hpos => ?_
  refine (hexpr s₁ hs₁).bind fun c s₂ hs₂ hc => ?_
  have hlt := hc.lt
  rw [hpos] at hc
  refine (hblock s₂ hs₂).bind fun consequent s₃ hs₃ hconsequent => ?_
  -- the consequent stands behind the condition
  obtain ⟨hlt', hconsequent⟩ := hconsequent
  have hconsequent := hconsequent.mono (Nat.le_succ _) (Nat.le_refl _)
  rw [get_bind]
  have hahead : At tokens s₃.skipNewlines := hs₃.drop _
  have hle : s₃.position ≤ s₃.skipNewlines.position := Nat.le_add_right ..
  split
  · -- `else`: its branch stands behind the consequent
    next helse =>
    have hbehind : s₃.skipNewlines.next.position = s₃.skipNewlines.position + 1 :=
      At.position_next (rest_ne_nil_of_kind? (eq_of_beq helse))
    have hread : Told tokens (fun hi alternative => ∃ b, alternative = some b ∧
        Stmt.Fits tokens s₃.skipNewlines.next.position hi b)
        ((do set s₃.skipNewlines; advance; some <$> branch : Parse (Option (Stmt Origin))) s₃) :=
      (hbranch s₃.skipNewlines.next (hahead.drop 1)).map fun i b hb => ⟨b, rfl, hb⟩
    refine hread.bind fun alternative s₄ hs₄ hfits => ?_
    obtain ⟨branch, rfl, hfits⟩ := hfits
    have hlt₄ := hfits.sits.lt
    refine told_pure hs₄ ⟨hs.sits hs₄ (by omega) (Nat.le_refl _), s₂.position, s₃.position, hc,
      hconsequent, ?_⟩
    exact hfits.mono (by omega) (Nat.le_refl _)
  · -- no `else`: the node ends with its consequent
    exact told_pure hs₃ ⟨hs.sits hs₃ (by omega) (Nat.le_refl _), s₂.position, hc, hconsequent⟩

/-- Statements with separators between make a row, by induction on the bound. -/
theorem statements_tells {statement : Parse (Stmt Origin)}
    (hstmt : Tells tokens statement (Stmt.Fits tokens)) (inBlock : Bool) (n : Nat) :
    Tells tokens (statements statement inBlock n) (Stmt.AllFit tokens) := by
  induction n with
  | zero => exact fun _ => told_tooDeep
  | succ n ih =>
    intro s hs
    rw [statements]
    refine told_skipSeparators hs fun s₁ hs₁ hle => ?_
    rw [get_bind]
    split
    · -- the statements stop here
      exact told_pure hs₁ hle
    · -- one more, and then a separator or the end
      refine (hstmt s₁ hs₁).bind fun first s₂ hs₂ hfirst => ?_
      rw [get_bind]
      split
      · refine (ih s₂ hs₂).bind fun others s₃ hs₃ hothers => ?_
        exact told_pure hs₃ ⟨s₂.position, hfirst.mono hle (Nat.le_refl _), hothers⟩
      · exact told_unexpected hs₂ .separator

/-- The braces are around the row. -/
theorem braced_tells {statement : Parse (Stmt Origin)}
    (hstmt : Tells tokens statement (Stmt.Fits tokens)) (n : Nat) :
    Tells tokens (braced n statement) (BlockFits tokens) := by
  intro s hs
  rw [braced]
  refine (tells_expect _ _ s hs).bind fun _ s₁ hs₁ hpos => ?_
  refine told_enter hs₁ fun depth hdepth => ?_
  refine (statements_tells hstmt true n _ hdepth).bind fun body s₂ hs₂ hbody => ?_
  have hleave : At tokens s₂.leave := hs₂.congr rfl rfl rfl
  refine (tells_expect _ _ s₂.leave hleave).bind fun _ s₃ hs₃ hpos' => ?_
  have hbody : Stmt.AllFit tokens s₁.position s₂.position body := hbody
  have hpos' : s₃.position = s₂.position + 1 := hpos'
  have hle := (Stmt.allFit_iff.mp hbody).le fun _ _ _ h => Nat.le_of_lt h.sits.lt
  exact told_pure hs₃ ⟨by omega, hbody.mono (by omega) (by omega)⟩

/-- **Statements fit**, by induction on the bound. -/
theorem statement_tells (tokens : List Token) (n : Nat) :
    Tells tokens (statement n) (Stmt.Fits tokens) ∧
      TellsNext tokens (ifStatement n) (Stmt.Fits tokens) ∧
      Tells tokens (Parse.block n) (BlockFits tokens) := by
  induction n with
  | zero => exact ⟨fun _ => told_tooDeep, fun _ hs _ => told_tooDeep hs, fun _ => told_tooDeep⟩
  | succ n ih =>
    obtain ⟨hstmt, hif, hblock⟩ := ih
    obtain ⟨hexpr, -, -⟩ := expressions_tell tokens n
    refine ⟨?_, ?_, ?_⟩
    · intro s hs
      rw [statement, get_bind]
      split
      · -- `if` tells a conditional
        next h => exact hif s hs (rest_ne_nil_of_kind? (eq_of_beq h))
      · -- the first token of any other statement tells its rule
        refine (simpleStatement_tells n hexpr hblock s hs).bind fun node s₁ hs₁ hnode => ?_
        exact told_pure hs₁ (hnode.2 s.span (hs.sits hs₁ hnode.1 (Nat.le_refl _)))
    · exact conditional_tells hexpr hblock (elseBranch_tells hif hblock)
    · exact braced_tells hstmt n

end Parse

/-! ## Token lists -/

/-- What parsing a token list tells. -/
theorem parse_told {tokens : List Token} (hne : tokens ≠ []) :
    match parse tokens with
    | .ok p => Stmt.AllFit tokens 0 tokens.length p.statements
    | .error e => ∃ t ∈ tokens, t.span = e.span := by
  have htold := Parse.statements_tells (Parse.statement_tells tokens (Parse.bound tokens)).1 false
    (Parse.bound tokens) (.initial tokens) (.initial hne)
  unfold parse
  dsimp only
  cases hrun : Parse.statements (Parse.statement (Parse.bound tokens)) false (Parse.bound tokens)
      (.initial tokens) with
  | ok body s =>
    rw [hrun] at htold
    exact htold.2.mono (Nat.le_refl 0) htold.1.position
  | error e s =>
    rw [hrun] at htold
    exact htold

end Scriptlet
