/-
  Completeness: whatever expression the grammar derives, the parser accepts, up to the nesting
  limit.

  1. **One lemma per rule** — `levelReads_tighter`, `levelReads_link`, … say that the words of a
     derivation are read if those of its parts are.
  2. **Enough fuel** — sixteen for every word, less the levels of precedence already passed.
  3. **The crux (`expressionReads_assign`)** — the left side of `=` is read as an operand first.
     Soundness then bounds the range of its tokens, so the single name is recognized as bare.
  4. **Tying the knot** — one recursion over derivations, through the argument lists inside them.
-/
import Scriptlet.Proofs.Grammar.Reading

namespace Scriptlet

namespace Parse

open Grammar

/-! ## Expressions -/

/-- An operator of a level is taken for one. -/
theorem State.operator?_of_words {s : State} {w : Word} {rest : List Word} {p : Precedence}
    {x : Symbol} {op : Operator} (hs : s.words = w :: rest) (hw : w.kind = .symbol x)
    (hop : OperatorAt p x op) : s.operator? p = some op := by
  rw [State.operator?, State.kind?_of_words hs, hw]
  exact operator?_eq_some_iff.mpr hop

theorem State.operator?_of_follows {s : State} {p : Precedence} (h : Follows p s.words) :
    (s.operator? p).isSome = false := by
  cases hop : s.operator? p with
  | none => rfl
  | some op =>
    obtain ⟨w, rest, x, hw, hk, hat⟩ := State.words_of_operator? hop
    rw [hw] at h
    exact absurd hk ((h w rfl).2 p x op hat (Nat.le_refl _))

theorem State.atSymbol_leftParen_of_follows {s : State} {p : Precedence} (h : Follows p s.words) :
    s.atSymbol .leftParen = false := by
  cases hw : s.words with
  | nil => exact State.atSymbol_of_words_nil hw
  | cons w rest =>
    rw [hw] at h
    rw [State.atSymbol_of_words hw]
    exact beq_false_of_ne (h w rfl).1

/-- Words that derive an expression are read as one. -/
def ExpressionReads (k : Nat) (ws : List Word) (e : Expr Unit) : Prop :=
  ∀ (n : Nat) (s : State) (rest : List Word), s.words = ws ++ rest → 16 * ws.length ≤ n →
    Closes rest → Reads (expression n) s k ws fun b => b.shape = e

/-- Words that derive an expression of level `p`, a chain of `m` links, are read as one.  A level of
    infix operators or of calls is given by where its loop stands after these words. -/
structure LevelReads (p : Precedence) (m k : Nat) (ws : List Word) (e : Expr Unit) : Prop where
  links : m < ws.length
  operations : p < .unary → ∀ (n : Nat) (s : State) (rest : List Word), s.words = ws ++ rest →
    16 * ws.length ≤ n + p.rank + 1 → Follows p.tighter rest →
    ChainReads (level n p.tighter) (fun s => (s.operator? p).isSome)
      (operationLink p (level n p.tighter) s.position) n s m k ws fun b => b.shape = e
  unary : p = .unary → ∀ (n : Nat) (s : State) (rest : List Word), s.words = ws ++ rest →
    16 * ws.length ≤ n + 8 → Follows .unary rest → Reads (unary n) s k ws fun b => b.shape = e
  calls : p = .call → ∀ (n : Nat) (s : State) (rest : List Word), s.words = ws ++ rest →
    16 * ws.length ≤ n + 9 →
    ChainReads (primary (expression n)) (·.atSymbol .leftParen)
      (callLink n (expression n) s.position) n s m k ws fun b => b.shape = e

section Levels

variable {p : Precedence} {m k : Nat} {ws : List Word} {e : Expr Unit}

/-- The loop of a level ends where the words after it do not continue it. -/
theorem LevelReads.level (h : LevelReads p m k ws e) (hp : p ≤ .unary) {n : Nat} {s : State}
    {rest : List Word} (hs : s.words = ws ++ rest) (hn : 16 * ws.length ≤ n + p.rank)
    (hrest : Follows p rest) : Reads (level n p) s k ws fun b => b.shape = e := by
  have hlinks := h.links
  have hrank : p.rank ≤ 7 := hp
  obtain ⟨n, rfl⟩ : ∃ n', n = n' + 1 := ⟨n - 1, by omega⟩
  refine Reads.congr (q := if .unary ≤ p then Parse.unary n
    else Parse.operations n p (Parse.level n p.tighter)) rfl ?_
  by_cases hu : .unary ≤ p
  · rw [if_pos hu]
    have hpu : p = .unary := by
      cases p <;> first | rfl | exact absurd hu (by decide) | exact absurd hp (by decide)
    subst hpu
    have hn : 16 * ws.length ≤ n + 1 + 7 := hn
    exact h.unary rfl n s rest hs (by omega) hrest
  · rw [if_neg hu]
    have hlt : p < .unary := Nat.lt_of_not_le hu
    have htight : p.rank ≤ p.tighter.rank := by
      rw [Precedence.rank_tighter (Nat.lt_trans hlt (by decide))]
      omega
    have hchain := h.operations hlt n s rest hs (by omega) (hrest.mono htight)
    have hread := hchain.finish (by omega) fun s' hp' => State.operator?_of_follows (by
      rw [show s'.words = rest from hp'.words_right hs]
      exact hrest)
    exact Reads.congr (q := chain n _ _ _) rfl hread

/-- The loop of argument lists ends where none follows. -/
theorem LevelReads.call (h : LevelReads .call m k ws e) {n : Nat} {s : State} {rest : List Word}
    (hs : s.words = ws ++ rest) (hn : 16 * ws.length ≤ n + 9) (hrest : Follows .unary rest) :
    Reads (Parse.calls n (primary (expression n)) (expression n)) s k ws
      fun b => b.shape = e := by
  have hlinks := h.links
  have hchain := h.calls rfl n s rest hs hn
  have hread := hchain.finish (by omega) fun s' hp' =>
    State.atSymbol_leftParen_of_follows (p := .unary) (by
      rw [show s'.words = rest from hp'.words_right hs]
      exact hrest)
  exact Reads.congr (q := chain n _ _ _) rfl hread

theorem State.unaryOp?_of_words {s : State} {w : Word} {rest : List Word} {x : Symbol}
    {op : UnaryOp} (hs : s.words = w :: rest) (hw : w.kind = .symbol x) (hop : UnaryAt x op) :
    s.unaryOp? = some op := by
  rw [State.unaryOp?, State.kind?_of_words hs, hw]
  exact ofSymbol?_eq_some_iff.mpr hop

/-- A level with no link of its own. -/
theorem levelReads_tighter {q : Precedence} (hq : OperandAt p q) (inner : Level q m k ws e)
    (h : LevelReads q m k ws e) : LevelReads p 0 k ws e where
  links := inner.starts.length_pos
  operations hlt n s rest hs hn hrest := by
    have hlt : p.rank < 7 := hlt
    have hrank := hq.rank_eq
    rw [← hq.eq_tighter] at hrest ⊢
    exact .start (h.level (show q.rank ≤ 7 by omega) hs (by omega) hrest)
  unary hpu n s rest hs hn hrest := by
    subst hpu
    obtain rfl : q = .call := hq.eq_tighter
    have hlinks := h.links
    obtain ⟨n, rfl⟩ : ∃ n', n = n' + 1 := ⟨n - 1, by omega⟩
    obtain ⟨w, tail, rfl, hw⟩ := inner.call_starts rfl
    refine Reads.congr (q := Parse.calls n (primary (expression n)) (expression n)) ?_
      (h.call hs (by omega) hrest)
    -- what a call starts with is no unary operator
    have hop : s.unaryOp? = none := by
      cases hop : s.unaryOp? with
      | none => rfl
      | some op =>
        obtain ⟨v, more, x, hv, hk, hat⟩ := State.words_of_unaryOp? hop
        rw [hs] at hv
        rw [← (List.cons.inj hv).1] at hk
        exact absurd hk (hw x op hat)
    rw [Parse.unary, unaryOr, get_bind, hop]
  calls hpc := absurd hq.lt_call (by rw [hpc]; decide)

/-- One more infix operator and its right operand. -/
theorem levelReads_link {q : Precedence} {x : Symbol} {op : Operator} {m' k' : Nat}
    {ws' gap : List Word} {l r : Expr Unit} {o : Word} (hop : OperatorAt p x op)
    (hq : OperandAt p q) (hl : LevelReads p m k ws l) (ho : o.kind = .symbol x)
    (hgap : Newlines gap) (right : Level q m' k' ws' r) (hr : LevelReads q m' k' ws' r) :
    LevelReads p (m + 1) (max k (m + k')) (ws ++ o :: gap ++ ws') (.operation () op l r) := by
  have hlt : p.rank < 7 := hop.lt_unary
  have hrank := hq.rank_eq
  obtain rfl := hq.eq_tighter
  have hlinks := hl.links
  have hpos := right.starts.length_pos
  refine ⟨?_, ?_, fun h => ?_, fun h => ?_⟩
  · simp only [List.length_append, List.length_cons]
    omega
  · intro _ n s rest hs hn hrest
    simp only [List.length_append, List.length_cons] at hn
    have hs : s.words = ws ++ (o :: (gap ++ (ws' ++ rest))) := by
      rw [hs]; simp only [List.append_assoc, List.cons_append]
    have hleft := hl.operations hop.lt_unary n s _ hs (by omega) (follows_operator hop hq ho)
    rw [List.append_assoc]
    refine hleft.next (by omega) fun left s₁ hleft hp₁ => ?_
    have hs₁ : s₁.words = o :: (gap ++ (ws' ++ rest)) := hp₁.words_right hs
    have hnext := State.operator?_of_words hs₁ ho hop
    refine ⟨by rw [hnext]; rfl, ?_⟩
    -- the operator and the newlines after it, then the operand
    have hs₁' : (s₁.atDepth (s.depth + m)).words = o :: (gap ++ (ws' ++ rest)) := hs₁
    have hp₂ := State.passed_next hs₁'
    have hs₂ := State.words_next hs₁'
    have hp₃ := State.passed_skipNewlines_of_words hs₂ hgap (right.starts.head_ne_newline rest)
    refine Reads.after (q := Parse.level n p.tighter >>= fun right =>
      originFrom (s₁.atDepth (s.depth + m)).span s.position >>= fun a =>
        pure (.operation a op left right)) (hp₂.trans hp₃) ?_ ?_
    · have hnext : (s₁.atDepth (s.depth + m)).operator? p = some op := hnext
      rw [operationLink, get_bind, hnext]
      rfl
    · have hright := hr.level (show p.tighter.rank ≤ 7 by omega)
        (hp₃.words_right hs₂) (n := n) (by omega) hrest
      refine (hright.bind 0 [] fun b s₂ _ hb => reads_node _ _ fun a => ?_).of_eq (by omega)
        (List.append_nil ws')
      show Expr.operation () op left.shape b.shape = _
      rw [hleft, hb]
  · rw [h] at hlt
    exact absurd hlt (by decide)
  · rw [h] at hlt
    exact absurd hlt (by decide)

/-- A unary operator and its operand. -/
theorem levelReads_unary {o : Word} {x : Symbol} {op : UnaryOp} (hop : UnaryAt x op)
    (ho : o.kind = .symbol x) (h : LevelReads .unary m k ws e) : LevelReads .unary 0 (k + 1) (o :: ws) (.unary () op e) where
  links := Nat.succ_pos _
  operations hlt := absurd hlt (by decide)
  unary _ n s rest hs hn hrest := by
    rw [List.length_cons] at hn
    have hlinks := h.links
    obtain ⟨n, rfl⟩ : ∃ n', n = n' + 1 := ⟨n - 1, by omega⟩
    have hp₁ := State.passed_next hs
    have hs₁ := State.words_next hs
    refine Reads.after (q := Parse.nested (Parse.unary n) >>= fun e =>
      originFrom s.span s.position >>= fun a => pure (.unary a op e)) hp₁ ?_ ?_
    · -- the sign has chosen this rule
      rw [Parse.unary, unaryOr, get_bind, State.unaryOp?_of_words hs ho hop]
      rfl
    · -- its operand is read one level deeper
      have hread := h.unary rfl n (s.next.atDepth (s.next.depth + 1)) rest hs₁ (by omega) hrest
      refine (hread.nested.bind 0 [] fun b s₂ _ hb => reads_node _ _ fun a => ?_).of_eq (by omega)
        (List.append_nil ws)
      show Expr.unary () op b.shape = _
      rw [hb]
  calls hpc := absurd hpc (by decide)

/-- Arguments in parentheses. -/
theorem arguments_reads {n : Nat} {s : State} {rest : List Word} {args : List (Expr Unit)}
    (h : Enclosed (fun k ws e => Expression k ws e ∧ ExpressionReads k ws e) k ws args)
    (hs : s.words = ws ++ rest) (hn : 16 * ws.length ≤ n) :
    Reads (parenList n fun _ => expression n) s k ws fun bs => Expr.shapes bs = args := by
  have hitem : ItemReads (fun k ws e => Expression k ws e ∧ ExpressionReads k ws e) Expr.shape
      (fun _ => True) ws.length (fun _ => expression n) := by
    intro _ k ws' x s rest hx hsize hs hclose _
    exact hx.2 n s rest hs (by omega) hclose
  have hstart : ItemStarts fun k ws e => Expression k ws e ∧ ExpressionReads k ws e := by
    intro k ws x hx
    obtain ⟨w, tail, rfl, hw⟩ := hx.1.starts
    refine ⟨w, tail, rfl, fun hk => ?_, fun hk => ?_⟩ <;> rw [hk] at hw <;>
      exact absurd hw (by decide)
  have hread := parenList_reads hitem hstart (fun _ _ _ => trivial) h (Nat.le_refl _)
    (n := n) (by omega) hs trivial
  exact hread.mono fun bs hbs => by rw [Expr.shapes_eq_map]; exact hbs

/-- One more argument list. -/
theorem levelReads_call {k' : Nat} {ws' : List Word} {f : Expr Unit} {args : List (Expr Unit)}
    {o : Word} (hf : LevelReads .call m k ws f) (ho : o.kind = .symbol .leftParen)
    (hargs : Enclosed (fun k ws e => Expression k ws e ∧ ExpressionReads k ws e) k' ws' args) :
    LevelReads .call (m + 1) (max k (m + k')) (ws ++ o :: ws') (.call () f args) where
  links := by
    have hlinks := hf.links
    simp only [List.length_append, List.length_cons]
    omega
  operations hlt := absurd hlt (by decide)
  unary hpu := absurd hpu (by decide)
  calls _ n s rest hs hn := by
    have hlinks := hf.links
    simp only [List.length_append, List.length_cons] at hn
    -- the links so far end where the parenthesis stands
    have hs : s.words = ws ++ (o :: (ws' ++ rest)) := by
      rw [hs]; simp only [List.append_assoc, List.cons_append]
    refine (hf.calls rfl n s _ hs (by omega)).next (by omega) fun callee s₁ hcallee hp₁ => ?_
    have hs₁ : s₁.words = o :: (ws' ++ rest) := hp₁.words_right hs
    refine ⟨by rw [State.atSymbol_of_words hs₁, ho]; rfl, ?_⟩
    have hs₁' : (s₁.atDepth (s.depth + m)).words = o :: (ws' ++ rest) := hs₁
    -- one more list of arguments
    have hread := arguments_reads hargs (State.words_next hs₁') (n := n) (by omega)
    refine Reads.after (q := parenList n (fun _ => expression n) >>= fun args =>
      originFrom (s₁.atDepth (s.depth + m)).span s.position >>= fun a =>
        pure (.call a callee args)) (State.passed_next hs₁') rfl ?_
    refine (hread.bind 0 [] fun bs s₂ _ hbs => reads_node _ _ fun a => ?_).of_eq (by omega)
      (List.append_nil ws')
    show Expr.call () callee.shape (Expr.shapes bs) = _
    rw [hcallee, hbs]

/-- The token of a word that is an expression is that expression. -/
theorem leaf?_of_atom? {t : Token} (h : t.word.atom? = some e) :
    ∃ node, leaf? t = some node ∧ ∀ a, (node a).shape = e := by
  obtain ⟨kind, text, span⟩ := t
  match kind with
  | .integer _ | .float _ | .str _ | .identifier =>
    cases h
    exact ⟨_, rfl, fun a => rfl⟩
  | .keyword k => cases k <;> cases h <;> exact ⟨_, rfl, fun a => rfl⟩
  | .symbol _ | .newline | .eof => cases h

/-- A literal or a name. -/
theorem levelReads_atom {w : Word} (hw : w.atom? = some e) : LevelReads .call 0 0 [w] e where
  links := Nat.succ_pos _
  operations hlt := absurd hlt (by decide)
  unary hpu := absurd hpu (by decide)
  calls _ n s rest hs hn := by
    refine .start ?_
    obtain ⟨t, ts, hr, -, rfl, -⟩ := State.rest_of_words hs
    obtain ⟨node, hnode, hshape⟩ := leaf?_of_atom? hw
    -- the word is no parenthesis
    have hparen : s.atSymbol .leftParen = false := by
      rw [State.atSymbol_of_words hs]
      refine beq_false_of_ne fun hk => ?_
      rw [Word.atom?, hk] at hw
      exact absurd hw (by simp)
    refine Reads.after (q := originFrom s.span s.position >>= fun a => pure (node a))
      (State.passed_next hs) ?_ (reads_node _ _ hshape)
    -- it is the token of an operand
    have hleaf : s.rest.head?.bind leaf? = some node := by
      rw [hr]
      exact hnode
    rw [primary, get_bind, hparen, hleaf]
    rfl

/-- An expression in parentheses. -/
theorem levelReads_parens {o c : Word} {gap gap' : List Word} (ho : o.kind = .symbol .leftParen)
    (hgap : Newlines gap) (inner : Expression k ws e) (h : ExpressionReads k ws e)
    (hgap' : Newlines gap') (hc : c.kind = .symbol .rightParen) :
    LevelReads .call 0 k (o :: gap ++ ws ++ gap' ++ [c]) e where
  links := by simp
  operations hlt := absurd hlt (by decide)
  unary hpu := absurd hpu (by decide)
  calls _ n s rest hs hn := by
    refine .start ?_
    simp only [List.length_append, List.length_cons, List.length_nil] at hn
    have hs : s.words = o :: (gap ++ (ws ++ (gap' ++ c :: rest))) := by
      rw [hs]; simp only [List.append_assoc, List.cons_append, List.nil_append]
    have hp₁ := State.passed_next hs
    have hs₁ := State.words_next hs
    -- newlines behind the opening parenthesis are skipped
    have hp₂ := State.passed_skipNewlines_of_words hs₁ hgap (inner.starts.head_ne_newline _)
    have hs₂ := hp₂.words_right hs₁
    have hread := h n s.next.skipNewlines _ hs₂ (by omega) (closes_gap hgap' hc rfl)
    -- the expression, newlines, and the closing parenthesis
    have hall : Reads (expression n >>= fun e => skipNewlines >>= fun _ =>
        expect .rightParen .rightParen >>= fun _ => pure e : Parse (Expr Origin))
        s.next.skipNewlines k (ws ++ (gap' ++ [c])) fun b => b.shape = e := by
      refine (hread.bind 0 (gap' ++ [c]) fun b s₃ hp₃ hb => ?_).of_eq (by omega) rfl
      have hs₃ := hp₃.words_right hs₂
      have hp₄ := State.passed_skipNewlines_of_words hs₃ hgap' (by simp [hc])
      refine Reads.after (q := expect .rightParen .rightParen >>= fun _ => pure b) hp₄ rfl ?_
      exact (reads_expect (hp₄.words_right hs₃) hc).bind 0 [] fun _ _ _ _ => Reads.pure hb
    refine (Reads.after (hp₁.trans hp₂) ?_ hall).of_eq rfl
      (by simp only [List.append_assoc, List.cons_append, List.nil_append])
    rw [primary, get_bind, State.atSymbol_of_words hs, ho]
    rfl

/-- An expression that is no assignment. -/
theorem expressionReads_operand (operand : Level .or m k ws e) (h : LevelReads .or m k ws e) :
    ExpressionReads (k + 1) ws e := by
  intro n s rest hs hn hclose
  have hpos := operand.starts.length_pos
  obtain ⟨n, rfl⟩ : ∃ n', n = n' + 1 := ⟨n - 1, by omega⟩
  refine Reads.nested (p := assignment (Parse.level n .or) (expression n)) ?_
  have hread := h.level (by decide) (s := s.atDepth (s.depth + 1)) hs (n := n)
    (show 16 * ws.length ≤ n + 1 by omega) (hclose.follows .or)
  refine Reads.congr (get_bind _ _) ?_
  refine (hread.bind 0 [] fun b s₁ hp hb => ?_).of_eq (by omega) (List.append_nil ws)
  -- what closes an expression is no `=`
  have hassign : s₁.atSymbol .assign = false := by
    have hs₁ : s₁.words = rest := hp.words_right hs
    cases rest with
    | nil => exact State.atSymbol_of_words_nil hs₁
    | cons w rest =>
      rw [State.atSymbol_of_words hs₁]
      refine beq_false_of_ne fun hk => ?_
      have := hclose w rfl
      rw [hk] at this
      exact absurd this (by decide)
  refine Reads.congr (q := pure b) ?_ (Reads.pure hb)
  rw [get_bind, hassign]
  rfl

/-- A name as an operand of any level. -/
theorem levelReads_name {x : Word} (hx : x.kind = .identifier) :
    LevelReads .or 0 0 [x] (.name () x.text) := by
  have hatom : x.atom? = some (.name () x.text) := by rw [Word.atom?, hx]
  have up {p q : Precedence} (hq : OperandAt p q)
      (h : Level q 0 0 [x] (.name () x.text) ∧ LevelReads q 0 0 [x] (.name () x.text)) :
      Level p 0 0 [x] (.name () x.text) ∧ LevelReads p 0 0 [x] (.name () x.text) :=
    ⟨.tighter hq h.1, levelReads_tighter hq h.1 h.2⟩
  have hcall : Level .call 0 0 [x] (.name () x.text) ∧ LevelReads .call 0 0 [x] (.name () x.text) :=
    ⟨.atom hatom, levelReads_atom hatom⟩
  exact (up .or <| up .and <| up .equality <| up .comparison <| up .term <| up .factor <|
    up .unary hcall).2

/-- A name that is all that was read is a bare name. -/
theorem bareName?_of_covers {b : Expr Origin} {x : String} {lo : Nat}
    (hb : b.shape = .name () x) (hcov : Covers lo (lo + 1) b) :
    bareName? b lo (lo + 1) = some x := by
  cases b with
  | name a y =>
    have hstart : lo ≤ a.start := hcov.start
    have hstop : a.stop ≤ lo + 1 := hcov.stop
    have hone := hcov.name a y rfl
    rw [bareName?, if_pos ⟨by omega, by omega⟩]
    exact congrArg some (Expr.name.inj hb).2
  | _ => exact absurd hb (by simp [Expr.shape])

/-- An assignment to a name. -/
theorem expressionReads_assign {x eq : Word} {gap : List Word} (hx : x.kind = .identifier)
    (heq : eq.kind = .symbol .assign) (hgap : Newlines gap) (value : Expression k ws e)
    (h : ExpressionReads k ws e) :
    ExpressionReads (k + 1) (x :: eq :: gap ++ ws) (.assign () x.text e) := by
  intro n s rest hs hn hclose
  simp only [List.length_append, List.length_cons] at hn
  obtain ⟨n, rfl⟩ : ∃ n', n = n' + 1 := ⟨n - 1, by omega⟩
  have hs : s.words = [x] ++ (eq :: (gap ++ (ws ++ rest))) := by
    rw [hs]; simp only [List.append_assoc, List.cons_append, List.nil_append]
  refine Reads.nested (p := assignment (Parse.level n .or) (expression n)) ?_
  have hfollow : Follows .or (eq :: (gap ++ (ws ++ rest))) := by
    intro w hw
    rw [List.head?_cons, Option.mem_some_iff] at hw
    rw [← hw, heq]
    refine ⟨by decide, fun q y op hop _ hk => ?_⟩
    cases TokenKind.symbol.inj hk
    exact nomatch hop
  -- the name is read as an operand; soundness adds the range of its tokens
  have hname := ((levelReads_name hx).level (by decide) (s := s.atDepth (s.depth + 1)) hs (n := n)
    (by simp only [List.length_singleton]; omega) hfollow).strengthen
      ((expressions_sound n).2.1 .or (by decide) (by decide))
  refine Reads.congr (get_bind _ _) ?_
  refine (hname.bind k (eq :: gap ++ ws) fun b s₁ hp hb => ?_).of_eq (by omega)
    (by simp only [List.cons_append, List.nil_append])
  have hs₁ : s₁.words = eq :: (gap ++ (ws ++ rest)) := hp.words_right hs
  have hbare : bareName? b s.position s₁.position = some x.text := by
    obtain ⟨hshape, s₁', hp', -, hcov⟩ := hb
    have hpos : s₁.position = s.position + 1 := hp.position
    have hpos' : s₁'.position = s.position + 1 := hp'.position
    rw [hpos'] at hcov
    rw [hpos]
    exact bareName?_of_covers hshape hcov
  have hp₂ := State.passed_next hs₁
  have hs₂ := State.words_next hs₁
  have hp₃ := State.passed_skipNewlines_of_words hs₂ hgap (value.starts.head_ne_newline rest)
  have hread := h n s₁.next.skipNewlines rest (hp₃.words_right hs₂) (by omega) hclose
  refine Reads.after (q := expression n >>= fun e => originFrom s₁.span s.position >>= fun a =>
    pure (.assign a x.text e)) (hp₂.trans hp₃) ?_ ?_
  · have hbare : bareName? b (s.atDepth (s.depth + 1)).position s₁.position = some x.text := hbare
    rw [get_bind, State.atSymbol_of_words hs₁, heq, hbare]
    rfl
  · refine (hread.bind 0 [] fun v s₃ _ hv => reads_node _ _ fun a => ?_).of_eq (by omega)
      (List.append_nil ws)
    show Expr.assign () x.text v.shape = _
    rw [hv]

end Levels

mutual

/-- **Every derivation of an expression is found.** -/
theorem expression_complete {k : Nat} {ws : List Word} {e : Expr Unit} :
    Expression k ws e → ExpressionReads k ws e
  | .assign _ _ _ hx heq hgap value =>
    expressionReads_assign hx heq hgap value (expression_complete value)
  | .operand operand => expressionReads_operand operand (level_complete operand)

theorem level_complete {p : Precedence} {m k : Nat} {ws : List Word} {e : Expr Unit} :
    Level p m k ws e → LevelReads p m k ws e
  | .tighter hq inner => levelReads_tighter hq inner (level_complete inner)
  | .link hop hq _ _ left ho hgap right =>
    levelReads_link hop hq (level_complete left) ho hgap right (level_complete right)
  | .unary hop _ ho operand => levelReads_unary hop ho (level_complete operand)
  | .call _ callee ho arguments =>
    levelReads_call (level_complete callee) ho (enclosed_complete arguments)
  | .atom hw => levelReads_atom hw
  | .parens _ _ _ _ ho hgap inner hgap' hc =>
    levelReads_parens ho hgap inner (expression_complete inner) hgap' hc

theorem enclosed_complete {k : Nat} {ws : List Word} {es : List (Expr Unit)} :
    Enclosed Expression k ws es →
      Enclosed (fun k ws e => Expression k ws e ∧ ExpressionReads k ws e) k ws es
  | .none gap close hgap hclose => .none gap close hgap hclose
  | .some gap gap' close hgap items hgap' hclose =>
    .some gap gap' close hgap (commaList_complete items) hgap' hclose

theorem commaList_complete {k : Nat} {ws : List Word} {es : List (Expr Unit)} :
    CommaList Expression k ws es →
      CommaList (fun k ws e => Expression k ws e ∧ ExpressionReads k ws e) k ws es
  | .one item => .one ⟨item, expression_complete item⟩
  | .more comma before after item hbefore hcomma hafter others =>
    .more comma before after ⟨item, expression_complete item⟩ hbefore hcomma hafter
      (commaList_complete others)

end

end Parse

end Scriptlet
