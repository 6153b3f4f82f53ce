/-
  Exact reading: parsers that pass known words.

  1. **What may follow** — a rule reads as far as it can, so a derivation is found only if the word
     after it does not continue it: `Follows p` for an expression of level `p`, `Closes` for a whole
     expression.
  2. **Exact reading** — `Reads p s k ws R`: from `s` the parser `p` passes exactly the words `ws`
     if the `k` levels of nesting they open fit below the limit, and fails as nested too deep if
     they do not.  There is no third outcome.
  3. **Lists and chains** — a list in parentheses is read item by item.  Derivations of a chain are
     left-recursive, the parser loops: `ChainReads` says where the loop stands once it has read the
     words of a derivation, and one more link is one more turn.
-/
import Scriptlet.Proofs.Grammar.Soundness

namespace Scriptlet

/-! ## What may follow -/

/-- The next tighter level is one rank up, as far as there is one. -/
theorem Precedence.rank_tighter {p : Precedence} (hp : p < .call) :
    p.tighter.rank = p.rank + 1 := by
  cases p <;> first | rfl | exact absurd hp (by decide)

theorem Precedence.rank_le_call (p : Precedence) : p.rank ≤ 8 := by
  cases p <;> decide

/-- Kinds of words that end an expression wherever they stand. -/
def TokenKind.closesExpression : TokenKind → Bool
  | .newline | .symbol .semicolon | .symbol .comma => true
  | .symbol .rightParen | .symbol .leftBrace | .symbol .rightBrace => true
  | _ => false

/-- An infix operator does not end an expression. -/
theorem Grammar.OperatorAt.not_closesExpression {p : Precedence} {x : Symbol} {op : Operator}
    (h : OperatorAt p x op) : (TokenKind.symbol x).closesExpression = false := by
  cases h <;> rfl

namespace Grammar

variable {p q : Precedence} {w : Word} {rest gap : List Word}

/-- The words after an expression of level `p` do not continue it: no argument list comes next, and
    no operator of this or a tighter level. -/
def Follows (p : Precedence) (rest : List Word) : Prop :=
  ∀ w ∈ rest.head?, w.kind ≠ .symbol .leftParen ∧
    ∀ q x op, OperatorAt q x op → p ≤ q → w.kind ≠ .symbol x

/-- The words after an expression end it. -/
def Closes (rest : List Word) : Prop := ∀ w ∈ rest.head?, w.kind.closesExpression = true

/-- What does not continue a level does not continue a tighter one. -/
theorem Follows.mono (h : Follows p rest) (hpq : p ≤ q) : Follows q rest := by
  intro w hw
  refine ⟨(h w hw).1, fun r x op hop hle => (h w hw).2 r x op hop ?_⟩
  exact Nat.le_trans (show p.rank ≤ q.rank from hpq) hle

/-- **What ends an expression continues no level.** -/
theorem Closes.follows (h : Closes rest) (p : Precedence) : Follows p rest := by
  intro w hw
  have hclose := h w hw
  refine ⟨fun hk => ?_, fun q x op hop _ hk => ?_⟩
  · rw [hk] at hclose
    exact absurd hclose (by decide)
  · rw [hk, hop.not_closesExpression] at hclose
    exact absurd hclose (by decide)

theorem closes_cons {kind : TokenKind} (hw : w.kind = kind)
    (hkind : kind.closesExpression = true) : Closes (w :: rest) := by
  intro v hv
  rw [List.head?_cons, Option.mem_some_iff] at hv
  rw [← hv, hw]
  exact hkind

/-- Newlines end an expression, and so does the closing word behind them. -/
theorem closes_gap {kind : TokenKind} (hgap : Newlines gap) (hw : w.kind = kind)
    (hkind : kind.closesExpression = true) : Closes (gap ++ w :: rest) := by
  cases gap with
  | nil => exact closes_cons hw hkind
  | cons v gap => exact closes_cons (hgap v (List.mem_cons_self ..)) rfl

/-- The left operand of an operator ends before it. -/
theorem follows_operator {x : Symbol} {op : Operator} (hop : OperatorAt p x op)
    (hq : OperandAt p q) (hw : w.kind = .symbol x) : Follows q (w :: rest) := by
  intro v hv
  rw [List.head?_cons, Option.mem_some_iff] at hv
  subst hv
  rw [hw]
  refine ⟨fun h => ?_, fun p' x' op' hop' hle h => ?_⟩
  · cases TokenKind.symbol.inj h
    exact nomatch hop
  · -- the same symbol at this or a tighter level would be an operator of two levels
    cases TokenKind.symbol.inj h
    obtain ⟨rfl, -⟩ := hop.unique hop'
    have hle : q.rank ≤ p.rank := hle
    rw [hq.rank_eq] at hle
    omega

/-- The first word of a call is no unary operator. -/
theorem Level.call_starts {p : Precedence} {m k : Nat} {ws : List Word} {e : Expr Unit} :
    Level p m k ws e → p = .call →
      ∃ w rest, ws = w :: rest ∧ ∀ x op, UnaryAt x op → w.kind ≠ .symbol x
  | .tighter hq _, h => absurd hq.lt_call (by rw [h]; decide)
  | .link hop _ _ _ _ _ _ _, h => absurd hop.lt_unary (by rw [h]; decide)
  | .unary .., h => absurd h (by decide)
  | .call o callee _ _, h => by
    obtain ⟨w, rest, rfl, hw⟩ := callee.call_starts h
    exact ⟨w, rest ++ o :: _, rfl, hw⟩
  -- an atom is no symbol
  | .atom hw, _ => by
    refine ⟨_, [], rfl, fun x op _ hk => ?_⟩
    rw [Word.atom?, hk] at hw
    exact absurd hw (by simp)
  -- a parenthesis is no operator
  | .parens o c gap gap' ho _ _ _ _, _ => by
    refine ⟨o, _, rfl, fun x op hop hk => ?_⟩
    rw [ho] at hk
    cases TokenKind.symbol.inj hk
    exact nomatch hop

theorem StartsExpression.head_ne_newline {ws : List Word} (h : StartsExpression ws)
    (rest : List Word) : ∀ w ∈ (ws ++ rest).head?, w.kind ≠ .newline := by
  obtain ⟨v, tail, rfl, hv⟩ := h
  intro w hw hk
  rw [List.cons_append, List.head?_cons, Option.mem_some_iff] at hw
  rw [hw, hk] at hv
  exact absurd hv (by decide)

end Grammar

namespace Parse

open Grammar

/-! ## Exact reading -/

section Reads

variable {β γ : Type} {s s₁ s' : State} {k k' : Nat} {ws ws' : List Word}

/-- The parser fails because the nesting limit is reached. -/
def TooDeep (p : Parse β) (s : State) : Prop :=
  ∃ e s', p s = .error e s' ∧ e.cause = .nestingTooDeep

/-- From `s`, words `ws` that open `k` levels are read with a result in `R`, if there is room for
    these levels; otherwise the nesting is too deep. -/
structure Reads (p : Parse β) (s : State) (k : Nat) (ws : List Word) (R : β → Prop) : Prop where
  fits : s.depth + k ≤ maxNesting → ∃ b s', p s = .ok b s' ∧ Passed s s' ws ∧ R b
  deep : s.depth ≤ maxNesting → maxNesting < s.depth + k → TooDeep p s

variable {p q : Parse β} {f : β → Parse γ} {R : β → Prop} {R' : γ → Prop}

/-- A computation that succeeds hands its result on. -/
theorem bind_of_ok {b : β} (h : p s = .ok b s₁) : (p >>= f) s = f b s₁ := by
  show EStateM.bind p f s = _
  rw [EStateM.bind, h]

/-- A nesting that is too deep stops the computation. -/
theorem TooDeep.bind (h : TooDeep p s) : TooDeep (p >>= f) s := by
  obtain ⟨e, s', he, hc⟩ := h
  refine ⟨e, s', ?_, hc⟩
  show EStateM.bind p f s = _
  rw [EStateM.bind, he]

theorem TooDeep.of_run (heq : p s = q s₁) (h : TooDeep q s₁) : TooDeep p s := by
  obtain ⟨e, s', he, hc⟩ := h
  exact ⟨e, s', by rw [heq]; exact he, hc⟩

/-- Below the limit a level is entered. -/
theorem enter_of_lt (h : s.depth < maxNesting) : enter s = .ok () (s.atDepth (s.depth + 1)) := by
  show (if s.depth < maxNesting then modify fun s => { s with depth := s.depth + 1 }
    else tooDeep : Parse Unit) s = _
  rw [if_pos h]
  rfl

/-- At the limit none is. -/
theorem enter_tooDeep (h : ¬ s.depth < maxNesting) : TooDeep enter s := by
  refine ⟨⟨.nestingTooDeep, s.span⟩, s, ?_, rfl⟩
  show (if s.depth < maxNesting then modify fun s => { s with depth := s.depth + 1 }
    else tooDeep : Parse Unit) s = _
  rw [if_neg h]
  rfl

namespace Reads

theorem of_eq (h : Reads p s k ws R) (hk : k = k') (hws : ws = ws') : Reads p s k' ws' R := by
  subst hk hws
  exact h

theorem congr (heq : p s = q s) (h : Reads q s k ws R) : Reads p s k ws R where
  fits hk := by rw [heq]; exact h.fits hk
  deep hd hk := (h.deep hd hk).of_run heq

/-- A weaker property of the result. -/
theorem mono {Q : β → Prop} (h : Reads p s k ws R) (hRQ : ∀ b, R b → Q b) : Reads p s k ws Q where
  fits hk := by
    obtain ⟨b, s', hb, hp, hR⟩ := h.fits hk
    exact ⟨b, s', hb, hp, hRQ b hR⟩
  deep := h.deep

theorem pure {b : β} (hb : R b) : Reads (Pure.pure b) s 0 [] R where
  fits _ := ⟨b, s, rfl, Passed.refl s, hb⟩
  deep hd hk := absurd hk (by omega)

/-- One parser after another: the deeper of the two decides. -/
theorem bind (h : Reads p s k ws R) (k' : Nat) (ws' : List Word)
    (hf : ∀ b s', Passed s s' ws → R b → Reads (f b) s' k' ws' R') :
    Reads (p >>= f) s (max k k') (ws ++ ws') R' where
  fits hk := by
    obtain ⟨b, s₁, hb, hp, hR⟩ := h.fits (by omega)
    obtain ⟨c, s₂, hc, hp', hR'⟩ := (hf b s₁ hp hR).fits (by rw [hp.depth]; omega)
    exact ⟨c, s₂, by rw [bind_of_ok hb]; exact hc, hp.trans hp', hR'⟩
  deep hd hk := by
    by_cases hfit : s.depth + k ≤ maxNesting
    · obtain ⟨b, s₁, hb, hp, hR⟩ := h.fits hfit
      exact ((hf b s₁ hp hR).deep (by rw [hp.depth]; exact hd) (by rw [hp.depth]; omega)).of_run
        (bind_of_ok hb)
    · exact (h.deep hd (by omega)).bind

/-- A parser that first passes some words, which cannot fail, and then goes on as `q`. -/
theorem after {p q : Parse γ} (hp : Passed s s₁ ws) (heq : p s = q s₁)
    (h : Reads q s₁ k ws' R') : Reads p s k (ws ++ ws') R' where
  fits hk := by
    obtain ⟨c, s₂, hc, hp', hR'⟩ := h.fits (by rw [hp.depth]; exact hk)
    exact ⟨c, s₂, by rw [heq]; exact hc, hp.trans hp', hR'⟩
  deep hd hk :=
    (h.deep (by rw [hp.depth]; exact hd) (by rw [hp.depth]; exact hk)).of_run heq

/-- A function applied to the result reads nothing. -/
theorem map {g : β → γ} (h : Reads p s k ws R) (hg : ∀ b, R b → R' (g b)) :
    Reads (g <$> p) s k ws R' := by
  rw [← bind_pure_comp]
  exact (h.bind 0 [] fun b _ _ hb => Reads.pure (hg b hb)).of_eq (by omega) (List.append_nil ws)

/-- A parser run in another context of the same nesting, with a tidy-up at the end. -/
theorem within (t : State) (tidy : State → State) (hdepth : t.depth = s.depth)
    (heq : q s = always tidy p t) (hpass : ∀ s', Passed t s' ws → Passed s (tidy s') ws)
    (h : Reads p t k ws R) : Reads q s k ws R where
  fits hk := by
    obtain ⟨b, s', hb, hp, hR⟩ := h.fits (by rw [hdepth]; exact hk)
    exact ⟨b, tidy s', by rw [heq, always, hb], hpass s' hp, hR⟩
  deep hd hk := by
    obtain ⟨e, s', he, hc⟩ := h.deep (by rw [hdepth]; exact hd) (by rw [hdepth]; exact hk)
    exact ⟨e, tidy s', by rw [heq, always, he], hc⟩

/-- What a parser reads has the properties of all its results. -/
theorem strengthen {S : State → State → β → Prop} (h : Reads p s k ws R) (hS : Sound p S) :
    Reads p s k ws fun b => R b ∧ ∃ s', Passed s s' ws ∧ S s s' b where
  fits hk := by
    obtain ⟨b, s', hb, hp, hR⟩ := h.fits hk
    exact ⟨b, s', hb, hp, hR, s', hp, hS s b s' (by omega) hb⟩
  deep := h.deep

/-- One level deeper there is room for one level less. -/
theorem nested (h : Reads p (s.atDepth (s.depth + 1)) k ws R) :
    Reads (Parse.nested p) s (k + 1) ws R := by
  have hroom : s.depth < maxNesting →
      Parse.nested p s = always State.leave p (s.atDepth (s.depth + 1)) :=
    fun hlt => bind_of_ok (enter_of_lt hlt)
  constructor
  · intro hk
    obtain ⟨b, s', hb, hp, hR⟩ := h.fits (show s.depth + 1 + k ≤ maxNesting by omega)
    refine ⟨b, s'.leave, ?_, hp.leave, hR⟩
    rw [hroom (by omega), always, hb]
  · intro hd hk
    by_cases hlt : s.depth < maxNesting
    · obtain ⟨e, s', he, hc⟩ := h.deep hlt (show maxNesting < s.depth + 1 + k by omega)
      exact ⟨e, s'.leave, by rw [hroom hlt, always, he], hc⟩
    · exact (enter_tooDeep hlt).bind

end Reads

/-- Runs `p` one level deeper and comes back only if it succeeds. -/
def deeper (p : Parse β) : Parse β :=
  enter >>= fun _ => p >>= fun b => modify State.leave >>= fun _ => pure b

/-- **One level deeper**: the words open one level more. -/
theorem Reads.deeper (h : Reads p (s.atDepth (s.depth + 1)) k ws R) :
    Reads (Parse.deeper p) s (k + 1) ws R where
  fits hk := by
    obtain ⟨b, s', hb, hp, hR⟩ := h.fits (show s.depth + 1 + k ≤ maxNesting by omega)
    refine ⟨b, s'.leave, ?_, hp.leave, hR⟩
    rw [Parse.deeper, bind_of_ok (enter_of_lt (by omega)), bind_of_ok hb]
    rfl
  deep hd hk := by
    by_cases hlt : s.depth < maxNesting
    · have hdeep := h.deep hlt (show maxNesting < s.depth + 1 + k by omega)
      exact hdeep.bind.of_run (bind_of_ok (enter_of_lt hlt))
    · exact (enter_tooDeep hlt).bind

/-- The last step of most rules: the origin of the node is noted. -/
theorem reads_node {node : Origin → β} (span : Span) (start : Nat) (h : ∀ a, R (node a)) :
    Reads (originFrom span start >>= fun a => pure (node a)) s 0 [] R where
  fits _ := ⟨_, s, rfl, Passed.refl s, h _⟩
  deep hd hk := absurd hk (by omega)

variable {w : Word} {rest : List Word}

/-- The expected symbol is read where it stands. -/
theorem reads_expect {x : Symbol} {expected : Expectation} (hs : s.words = w :: rest)
    (hw : w.kind = .symbol x) : Reads (expect x expected) s 0 [w] fun _ => True where
  fits _ := by
    refine ⟨(), s.next, ?_, State.passed_next hs, trivial⟩
    show (if s.atSymbol x then advance else unexpected expected) s = _
    rw [State.atSymbol_of_words hs, hw, if_pos (beq_self_eq_true _)]
    rfl
  deep hd hk := absurd hk (by omega)

theorem reads_identifier {expected : Expectation} (hs : s.words = w :: rest)
    (hw : w.kind = .identifier) : Reads (identifier expected) s 0 [w] fun x => x = w.text where
  fits _ := by
    obtain ⟨t, ts, hr, -, rfl, -⟩ := State.rest_of_words hs
    have ht : t.kind = .identifier := hw
    refine ⟨t.text, s.next, ?_, State.passed_next hs, rfl⟩
    rw [identifier, get_bind, hr]
    show (if t.kind = .identifier then advance >>= fun _ => pure t.text
      else unexpected expected : Parse String) s = _
    rw [if_pos ht]
    rfl
  deep hd hk := absurd hk (by omega)

end Reads

/-! ## Lists in parentheses -/

section Lists

variable {β γ : Type} {Item : Nat → List Word → γ → Prop} {view : β → γ} {item : List β → Parse β}
variable {P : List γ → Prop} {size : Nat}

/-- The parser `item` reads what `Item` derives, up to a bound on the number of words, after any
    items with which `P` holds. -/
def ItemReads (Item : Nat → List Word → γ → Prop) (view : β → γ) (P : List γ → Prop) (size : Nat)
    (item : List β → Parse β) : Prop :=
  ∀ before k ws x s rest, Item k ws x → ws.length ≤ size → s.words = ws ++ rest → Closes rest →
    P (before.map view ++ [x]) → Reads (item before) s k ws fun b => view b = x

/-- The first word of an item is neither a newline nor a closing parenthesis. -/
def ItemStarts (Item : Nat → List Word → γ → Prop) : Prop :=
  ∀ k ws x, Item k ws x → ∃ w rest, ws = w :: rest ∧ w.kind ≠ .newline ∧
    w.kind ≠ .symbol .rightParen

/-- **A list of items is read exactly**, gap by gap. -/
theorem commaList_reads (hitem : ItemReads Item view P size item) (hstart : ItemStarts Item)
    (hP : ∀ xs ys, P (xs ++ ys) → P xs) {k : Nat} {ws : List Word} {xs : List γ}
    (h : CommaList Item k ws xs) :
    ∀ (n : Nat) (before : List β) (s : State) (gap rest : List Word) (c : Word),
      ws.length ≤ size → ws.length ≤ n → s.words = ws ++ gap ++ c :: rest → Newlines gap →
      c.kind = .symbol .rightParen → P (before.map view ++ xs) →
      Reads (commaList item n before) s k (ws ++ gap)
        fun bs => bs.map view = before.map view ++ xs := by
  induction h with
  | @one k ws x hx =>
    intro n before s gap rest c hsize hn hs hgap hc hPall
    obtain ⟨w, tail, rfl, -, -⟩ := hstart k ws x hx
    obtain ⟨n, rfl⟩ : ∃ n', n = n' + 1 := ⟨n - 1, by simp only [List.length_cons] at hn; omega⟩
    rw [List.append_assoc] at hs
    have hread := hitem before k _ x s _ hx hsize hs (closes_gap hgap hc rfl) hPall
    refine (hread.bind 0 gap fun b s₁ hp hb => ?_).of_eq (by omega) rfl
    have hs₁ := hp.words_right hs
    have hp₁ := State.passed_skipNewlines_of_words hs₁ hgap (by simp [hc])
    refine (Reads.after (q := pure (before ++ [b])) hp₁ ?_
      (Reads.pure ?_)).of_eq rfl (List.append_nil gap)
    · show (if s₁.skipNewlines.atSymbol .comma then
          advance >>= fun _ => skipNewlines >>= fun _ => commaList item n (before ++ [b])
        else pure (before ++ [b]) : Parse (List β)) s₁.skipNewlines = _
      rw [State.atSymbol_of_words (hp₁.words_right hs₁), hc]
      rfl
    · rw [List.map_append, List.map_singleton, hb]
  | @more k ws x k' ws' xs comma pre post hx hpre hcomma hpost hothers ih =>
    intro n before s gap rest c hsize hn hs hgap hc hPall
    simp only [List.length_append, List.length_cons] at hsize hn
    obtain ⟨n, rfl⟩ : ∃ n', n = n' + 1 := ⟨n - 1, by omega⟩
    have hs : s.words = ws ++ (pre ++ comma :: (post ++ (ws' ++ gap ++ c :: rest))) := by
      rw [hs]; simp only [List.append_assoc, List.cons_append]
    have hPx : P (before.map view ++ [x]) := by
      refine hP _ xs ?_
      rw [List.append_assoc]
      exact hPall
    have hread := hitem before k ws x s _ hx (by omega) hs (closes_gap hpre hcomma rfl) hPx
    refine (hread.bind k' (pre ++ (comma :: post) ++ (ws' ++ gap))
      fun b s₁ hp hb => ?_).of_eq rfl (by simp only [List.append_assoc, List.cons_append])
    -- past the comma and the newlines around it
    have hs₁ := hp.words_right hs
    have hp₁ := State.passed_skipNewlines_of_words hs₁ hpre (by simp [hcomma])
    have hs₂ := hp₁.words_right hs₁
    have hp₂ := State.passed_next hs₂
    have hs₃ := State.words_next hs₂
    have hhead : ∀ v ∈ (ws' ++ gap ++ c :: rest).head?, v.kind ≠ .newline := by
      cases hothers with
      | one hx' =>
        obtain ⟨v, tail, rfl, hv, -⟩ := hstart _ _ _ hx'
        simpa using hv
      | more _ _ _ hx' _ _ _ _ =>
        obtain ⟨v, tail, rfl, hv, -⟩ := hstart _ _ _ hx'
        simpa using hv
    have hp₃ := State.passed_skipNewlines_of_words hs₃ hpost hhead
    have hp₁₃ : Passed s₁ s₁.skipNewlines.next.skipNewlines (pre ++ comma :: post) := by
      simpa only [List.append_assoc, List.cons_append, List.nil_append]
        using (hp₁.trans hp₂).trans hp₃
    refine Reads.after (q := commaList item n (before ++ [b])) hp₁₃ ?_ ?_
    · show (if s₁.skipNewlines.atSymbol .comma then
          advance >>= fun _ => skipNewlines >>= fun _ => commaList item n (before ++ [b])
        else pure (before ++ [b]) : Parse (List β)) s₁.skipNewlines = _
      rw [State.atSymbol_of_words hs₂, hcomma]
      rfl
    · have hview : (before ++ [b]).map view = before.map view ++ [x] := by
        rw [List.map_append, List.map_singleton, hb]
      have hih := ih n (before ++ [b]) s₁.skipNewlines.next.skipNewlines gap rest c (by omega)
        (by omega) (hp₃.words_right hs₃) hgap hc (by rw [hview, List.append_assoc]; exact hPall)
      exact hih.mono fun bs hbs => by rw [hbs, hview, List.append_assoc]; rfl

/-- What follows an opening parenthesis. -/
theorem parenList_reads (hitem : ItemReads Item view P size item) (hstart : ItemStarts Item)
    (hP : ∀ xs ys, P (xs ++ ys) → P xs) {k n : Nat} {ws rest : List Word} {xs : List γ}
    {s : State} (h : Enclosed Item k ws xs) (hsize : ws.length ≤ size) (hn : ws.length ≤ n)
    (hs : s.words = ws ++ rest) (hPall : P xs) :
    Reads (parenList n item) s k ws fun bs => bs.map view = xs := by
  cases h with
  | none gap c hgap hc =>
    rw [List.append_assoc] at hs
    have hp₁ := State.passed_skipNewlines_of_words hs hgap (by simp [hc])
    have hs₁ := hp₁.words_right hs
    have hclose : Reads (expect .rightParen .rightParen >>= fun _ => pure ([] : List β))
        s.skipNewlines 0 [c] fun bs => bs.map view = [] :=
      (reads_expect hs₁ hc).bind 0 [] fun _ _ _ _ => Reads.pure rfl
    refine Reads.after hp₁ ?_ hclose
    show (if s.skipNewlines.atSymbol .rightParen then
        pure [] >>= fun items => expect .rightParen .rightParen >>= fun _ => pure items
      else commaList item n [] >>= fun items =>
        expect .rightParen .rightParen >>= fun _ => pure items : Parse (List β)) s.skipNewlines = _
    rw [State.atSymbol_of_words hs₁, hc]
    rfl
  | @some k ws xs gap gap' c hgap hitems hgap' hc =>
    simp only [List.length_append, List.length_cons] at hsize hn
    have hs : s.words = gap ++ (ws ++ gap' ++ c :: rest) := by
      rw [hs]; simp only [List.append_assoc, List.cons_append, List.nil_append]
    -- an item starts with a word that is neither skipped nor taken for the end of the list
    have hhead : ∃ w tail, ws ++ gap' ++ c :: rest = w :: tail ∧ w.kind ≠ .newline ∧
        w.kind ≠ .symbol .rightParen := by
      cases hitems with
      | one hx =>
        obtain ⟨v, tail, rfl, hv⟩ := hstart _ _ _ hx
        exact ⟨v, _, rfl, hv⟩
      | more _ _ _ hx _ _ _ _ =>
        obtain ⟨v, tail, rfl, hv⟩ := hstart _ _ _ hx
        exact ⟨v, _, rfl, hv⟩
    obtain ⟨w, tail, heq, hnewline, hparen⟩ := hhead
    have hp₁ := State.passed_skipNewlines_of_words hs hgap (by rw [heq]; simpa using hnewline)
    have hs₁ := hp₁.words_right hs
    have hlist := commaList_reads hitem hstart hP hitems n [] s.skipNewlines gap' rest c (by omega)
      (by omega) hs₁ hgap' hc hPall
    have hall : Reads (commaList item n [] >>= fun items =>
        expect .rightParen .rightParen >>= fun _ => pure items : Parse (List β)) s.skipNewlines k
        (ws ++ gap' ++ [c]) fun bs => bs.map view = xs := by
      refine (hlist.bind 0 [c] fun bs s₁ hp hbs => ?_).of_eq (by omega) rfl
      have hs₂ := hp.words_right hs₁
      exact (reads_expect hs₂ hc).bind 0 [] fun _ _ _ _ => Reads.pure hbs
    refine (Reads.after hp₁ ?_ hall).of_eq rfl (by simp only [List.append_assoc])
    show (if s.skipNewlines.atSymbol .rightParen then
        pure [] >>= fun items => expect .rightParen .rightParen >>= fun _ => pure items
      else commaList item n [] >>= fun items =>
        expect .rightParen .rightParen >>= fun _ => pure items : Parse (List β)) s.skipNewlines = _
    rw [State.atSymbol_of_words (hs₁.trans heq), if_neg (by simpa using hparen)]

end Lists

/-! ## Chains -/

section Chains

variable {β : Type} {first : Parse β} {more : State → Bool} {link : β → Parse β} {bound : Nat}
variable {s : State} {m k k' : Nat} {ws ws' : List Word} {R R' : β → Prop}

/-- Where the loop of a chain stands after the words `ws`, which hold `m` links: with an item in `R`
    and, if there are links, at the nesting of the last one. -/
structure ChainReads (first : Parse β) (more : State → Bool) (link : β → Parse β) (bound : Nat)
    (s : State) (m k : Nat) (ws : List Word) (R : β → Prop) : Prop where
  fits : s.depth + k ≤ maxNesting → ∃ left s', R left ∧ Passed s (s'.atDepth s.depth) ws ∧
    s'.depth = s.depth + (m - 1) ∧
    (first >>= links more link bound false) s
      = links more link (bound - m) (decide (0 < m)) left s'
  deep : s.depth ≤ maxNesting → maxNesting < s.depth + k →
    TooDeep (first >>= links more link bound false) s

/-- One turn of the loop, `m` levels above the start. -/
theorem links_turn {n d : Nat} {left : β} (hmore : more s = true) (hs : s.depth = d + (m - 1))
    (hfit : d + m ≤ maxNesting) :
    links more link (n + 1) (decide (0 < m)) left s
      = (link left >>= links more link n true) (s.atDepth (d + m)) := by
  show (if more s then
      (if decide (0 < m) = true then enter >>= fun _ => link left >>= links more link n true
        else link left >>= links more link n true)
    else pure left : Parse β) s = _
  rw [if_pos hmore]
  by_cases hm : 0 < m
  · rw [if_pos (decide_eq_true hm)]
    rw [show d + m = s.depth + 1 by omega]
    exact bind_of_ok (enter_of_lt (by omega))
  · rw [if_neg (by simpa using hm), show d + m = s.depth by omega]
    rfl

/-- There is no room for one more turn. -/
theorem links_tooDeep {n d : Nat} {left : β} (hmore : more s = true)
    (hs : s.depth = d + (m - 1)) (hd : d ≤ maxNesting) (hdeep : maxNesting < d + m) :
    TooDeep (links more link (n + 1) (decide (0 < m)) left) s := by
  have hm : 0 < m := by omega
  refine ((enter_tooDeep (s := s) (by omega)).bind
    (f := fun _ => link left >>= links more link n true)).of_run ?_
  show (if more s then
      (if decide (0 < m) = true then enter >>= fun _ => link left >>= links more link n true
        else link left >>= links more link n true)
    else pure left : Parse β) s = _
  rw [if_pos hmore, if_pos (decide_eq_true hm)]

namespace ChainReads

/-- The first item of a chain. -/
theorem start (h : Reads first s k ws R) : ChainReads first more link bound s 0 k ws R where
  fits hk := by
    obtain ⟨b, s', hb, hp, hR⟩ := h.fits hk
    refine ⟨b, s', hR, ?_, hp.depth, bind_of_ok hb⟩
    rw [← hp.depth]
    exact hp
  deep hd hk := (h.deep hd hk).bind

/-- **One more link** is one more turn of the loop. -/
theorem next (h : ChainReads first more link bound s m k ws R) (hm : m < bound)
    (hlink : ∀ left s', R left → Passed s (s'.atDepth s.depth) ws → more s' = true ∧
      Reads (link left) (s'.atDepth (s.depth + m)) k' ws' R') :
    ChainReads first more link bound s (m + 1) (max k (m + k')) (ws ++ ws') R' := by
  obtain ⟨n, hn⟩ : ∃ n, bound - m = n + 1 := ⟨bound - m - 1, by omega⟩
  have hn' : bound - (m + 1) = n := by omega
  constructor
  · -- there is room: the chain so far, and the link on top of it
    intro hk
    obtain ⟨left, s₁, hleft, hp, hdepth, hrun⟩ := h.fits (by omega)
    obtain ⟨hmore, hreads⟩ := hlink left s₁ hleft hp
    obtain ⟨e, s₂, he, hp', hR'⟩ := hreads.fits (show s.depth + m + k' ≤ maxNesting by omega)
    refine ⟨e, s₂, hR', hp.trans (hp'.atDepth s.depth), hp'.depth, ?_⟩
    rw [hrun, hn, links_turn hmore hdepth (by omega), bind_of_ok he, hn',
      decide_eq_true (Nat.succ_pos m)]
  · -- there is none: either the chain so far has none, or the link has none
    intro hd hk
    by_cases hfit : s.depth + k ≤ maxNesting
    · obtain ⟨left, s₁, hleft, hp, hdepth, hrun⟩ := h.fits hfit
      obtain ⟨hmore, hreads⟩ := hlink left s₁ hleft hp
      refine TooDeep.of_run hrun ?_
      rw [hn]
      by_cases hroom : s.depth + m ≤ maxNesting
      · have hdeep := hreads.deep hroom (show maxNesting < s.depth + m + k' by omega)
        exact hdeep.bind.of_run (links_turn hmore hdepth hroom)
      · exact links_tooDeep hmore hdepth hd (by omega)
    · exact h.deep hd (by omega)

/-- A chain ends where no link follows. -/
theorem finish (h : ChainReads first more link bound s m k ws R) (hm : m < bound)
    (hend : ∀ s', Passed s (s'.atDepth s.depth) ws → more s' = false) :
    Reads (chain bound first more link) s k ws R := by
  obtain ⟨n, hn⟩ : ∃ n, bound - m = n + 1 := ⟨bound - m - 1, by omega⟩
  have hchain : chain bound first more link s = ((first >>= links more link bound false) >>=
      fun whole => modify (fun s' => { s' with depth := s.depth }) >>= fun _ => pure whole) s := by
    show (first >>= fun left => links more link bound false left >>= fun whole =>
      modify (fun s' => { s' with depth := s.depth }) >>= fun _ => pure whole) s = _
    rw [bind_assoc]
  constructor
  · intro hk
    obtain ⟨left, s₁, hleft, hp, hdepth, hrun⟩ := h.fits hk
    refine ⟨left, s₁.atDepth s.depth, ?_, hp, hleft⟩
    -- no link comes, so the loop stops with what it has
    have hlast : links more link (bound - m) (decide (0 < m)) left s₁ = .ok left s₁ := by
      rw [hn]
      show (if more s₁ then
          (if decide (0 < m) = true then enter >>= fun _ => link left >>= links more link n true
            else link left >>= links more link n true)
        else pure left : Parse β) s₁ = _
      rw [hend s₁ hp]
      rfl
    rw [hchain, bind_of_ok (hrun.trans hlast)]
    rfl
  · -- a chain that is too deep stays too deep
    intro hd hk
    exact (h.deep hd hk).bind.of_run hchain

end ChainReads

end Chains

end Parse

end Scriptlet
