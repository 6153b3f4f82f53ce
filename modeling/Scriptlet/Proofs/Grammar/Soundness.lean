/-
  Soundness: whatever the parser accepts, the grammar derives.

  1. **What a parser reads** — `Derived D s s' b`: between `s` and `s'` words were read that `D`
     derives as `b`, opening no more levels of nesting than there was room for.
  2. **Step and run** — a chain of operators or argument lists is read link by link.
     `links_invariant` turns what one link preserves into what the whole chain preserves; the
     invariant (`ChainRead`) is that the words since the start of the chain derive the tree built so
     far, and that every link beyond the first has raised the nesting by one.
  3. **The crux (`assignment_sound`)** — a bare name on the left of `=` is recognized by the range
     of its tokens.  `Covers` bounds the range of every expression by the words read for it, so a
     name whose range is all of them was read from a single word.
  4. **Tying the knot** — one induction on the bound for expressions, one for statements.
-/
import Scriptlet.Proofs.Grammar.Walk

namespace Scriptlet.Parse

open Grammar

/-! ## What a parser reads -/

section Lists

variable {β : Type}

/-- Words that `D` derives as `b` were read between `s` and `s'`, within the nesting limit. -/
def Derived (D : Nat → List Word → β → Prop) (s s' : State) (b : β) : Prop :=
  ∃ k ws, Passed s s' ws ∧ s.depth + k ≤ maxNesting ∧ D k ws b

/-- Every result of `p`, from a state within the nesting limit, is related to the states by `R`. -/
def Sound (p : Parse β) (R : State → State → β → Prop) : Prop :=
  ∀ s b s', s.depth ≤ maxNesting → p s = .ok b s' → R s s' b

variable {D : Nat → List Word → β → Prop} {item : List β → Parse β}

/-- Items with commas between them: the words of a list, and the newlines after it.  `P` is what
    the items together satisfy, given that each item keeps it. -/
theorem commaList_sound (hitem : ∀ before, Sound (item before) (Derived D)) {P : List β → Prop}
    (hP : ∀ before s x s', P before → item before s = .ok x s' → P (before ++ [x])) :
    ∀ (n : Nat) (before : List β) (s : State) (xs : List β) (s' : State),
      s.depth ≤ maxNesting → P before → commaList item n before s = .ok xs s' →
      P xs ∧ ∃ ys k ws gap, xs = before ++ ys ∧ Passed s s' (ws ++ gap) ∧ Newlines gap ∧
        s.depth + k ≤ maxNesting ∧ CommaList D k ws ys := by
  intro n
  induction n with
  | zero => intro before s xs s' _ _ h; exact absurd h (by nofun)
  | succ n ih =>
    intro before s xs s' hd hbefore h
    -- one item, and the newlines behind it
    obtain ⟨x, s₁, h1, h⟩ := bind_eq_ok.mp h
    obtain ⟨k, ws, hp1, hk, hx⟩ := hitem before s x s₁ hd h1
    obtain ⟨gap, hgap, hp2, -⟩ := State.passed_skipNewlines s₁
    have hp12 := hp1.trans hp2
    change (if s₁.skipNewlines.atSymbol .comma then
        advance >>= fun _ => skipNewlines >>= fun _ => commaList item n (before ++ [x])
      else pure (before ++ [x]) : Parse (List β)) s₁.skipNewlines = _ at h
    split at h
    · -- a comma: more items come
      rename_i hcomma
      obtain ⟨w, rest, hw, hwk⟩ := State.words_of_atSymbol hcomma
      have hp3 := State.passed_next hw
      obtain ⟨gap', hgap', hp4, -⟩ := State.passed_skipNewlines s₁.skipNewlines.next
      have hp := (hp12.trans hp3).trans hp4
      obtain ⟨hxs, ys, k', ws', gap'', hys, hp5, hgap'', hk', hl⟩ := ih (before ++ [x])
        s₁.skipNewlines.next.skipNewlines xs s' (by rw [hp.depth]; exact hd)
        (hP before s x s₁ hbefore h1) h
      refine ⟨hxs, x :: ys, max k k', ws ++ gap ++ w :: gap' ++ ws', gap'', ?_, ?_, hgap'', ?_,
        .more w gap gap' hx hgap hwk hgap' hl⟩
      · rw [hys, List.append_assoc]; rfl
      · have := hp.trans hp5
        simpa only [List.append_assoc, List.cons_append, List.nil_append] using this
      · rw [hp.depth] at hk'; omega
    · -- no comma: the list ends with this one
      obtain ⟨rfl, rfl⟩ := pure_eq_ok h
      exact ⟨hP before s x s₁ hbefore h1, [x], k, ws, gap, rfl, hp12, hgap, hk, .one hx⟩

/-- What follows an opening parenthesis. -/
theorem parenList_sound (hitem : ∀ before, Sound (item before) (Derived D)) {P : List β → Prop}
    (hnil : P []) (hP : ∀ before s x s', P before → item before s = .ok x s' → P (before ++ [x]))
    (n : Nat) : Sound (parenList n item) fun s s' xs => P xs ∧ Derived (Enclosed D) s s' xs := by
  intro s xs s' hd h
  obtain ⟨gap, hgap, hp1, -⟩ := State.passed_skipNewlines s
  -- behind the items stands the closing parenthesis
  have hclose : ∀ {items : List β} {s₁ : State},
      (expect .rightParen .rightParen >>= fun _ => pure items : Parse (List β)) s₁ = .ok xs s' →
      xs = items ∧ ∃ c : Word, c.kind = .symbol .rightParen ∧ Passed s₁ s' [c] := by
    intro items s₁ h
    obtain ⟨u, s₂, h1, h2⟩ := bind_eq_ok.mp h
    obtain ⟨rfl, rfl⟩ := pure_eq_ok h2
    exact ⟨rfl, expect_eq_ok h1⟩
  change (if s.skipNewlines.atSymbol .rightParen then
      pure [] >>= fun items => expect .rightParen .rightParen >>= fun _ => pure items
    else commaList item n [] >>= fun items => expect .rightParen .rightParen >>= fun _ => pure items
    : Parse (List β)) s.skipNewlines = _ at h
  split at h
  · -- no items
    obtain ⟨rfl, c, hc, hp2⟩ := hclose h
    exact ⟨hnil, 0, gap ++ [c], hp1.trans hp2, hd, .none gap c hgap hc⟩
  · -- one item or more
    obtain ⟨items, s₁, h1, h⟩ := bind_eq_ok.mp h
    obtain ⟨rfl, c, hc, hp3⟩ := hclose h
    obtain ⟨hxs, ys, k, ws, gap', hys, hp2, hgap', hk, hl⟩ := commaList_sound hitem hP n []
      s.skipNewlines xs s₁ (by rw [hp1.depth]; exact hd) hnil h1
    rw [List.nil_append] at hys
    subst hys
    refine ⟨hxs, k, gap ++ ws ++ gap' ++ [c], ?_, by rw [hp1.depth] at hk; exact hk,
      .some gap gap' c hgap hl hgap' hc⟩
    have := (hp1.trans hp2).trans hp3
    simpa only [List.append_assoc] using this

end Lists

/-! ## Chains -/

/-- **What one link preserves, a chain preserves.**  The invariant `I` counts the links read since
    the chain began at nesting `d`; the link after the first `m` is read at nesting `d + m`. -/
theorem links_invariant {β : Type} {more : State → Bool} {link : β → Parse β}
    {I : Nat → State → β → Prop} {d : Nat} (hd : d ≤ maxNesting)
    (hdepth : ∀ m s e, I m s e → s.depth = d + (m - 1))
    (hstep : ∀ m left s e s', I m s left → more s = true → d + m ≤ maxNesting →
      link left (s.atDepth (d + m)) = .ok e s' → I (m + 1) s' e) :
    ∀ (n m : Nat) (left : β) (s : State) (e : β) (s' : State),
      I m s left → links more link n (decide (0 < m)) left s = .ok e s' → ∃ m', I m' s' e := by
  intro n
  induction n with
  | zero => intro m left s e s' _ h; exact absurd h (by nofun)
  | succ n ih =>
    intro m left s e s' hI h
    have hs := hdepth m s left hI
    change (if more s then
        (if decide (0 < m) = true then enter >>= fun _ => link left >>= links more link n true
          else link left >>= links more link n true)
      else pure left : Parse β) s = _ at h
    split at h
    · rename_i hmore
      -- in both cases the link is read `m` levels above the start
      have hlink : ∃ e₁ s₂, d + m ≤ maxNesting ∧ link left (s.atDepth (d + m)) = .ok e₁ s₂ ∧
          links more link n true e₁ s₂ = .ok e s' := by
        split at h
        · rename_i hm
          have hm : 0 < m := of_decide_eq_true hm
          obtain ⟨u, s₁, h1, h⟩ := bind_eq_ok.mp h
          obtain ⟨hlt, rfl⟩ := enter_eq_ok h1
          have heq : s.depth + 1 = d + m := by omega
          rw [heq] at h
          obtain ⟨e₁, s₂, h2, h⟩ := bind_eq_ok.mp h
          exact ⟨e₁, s₂, by omega, h2, h⟩
        · rename_i hm
          have hm : m = 0 := by
            have := of_decide_eq_false (eq_false_of_ne_true hm)
            omega
          subst hm
          obtain ⟨e₁, s₂, h2, h⟩ := bind_eq_ok.mp h
          have heq : s.atDepth (d + 0) = s := by
            have : d + 0 = s.depth := by omega
            rw [this]; exact s.atDepth_self
          exact ⟨e₁, s₂, hd, by rw [heq]; exact h2, h⟩
      obtain ⟨e₁, s₂, hle, h1, h2⟩ := hlink
      exact ih (m + 1) e₁ s₂ e s' (hstep m left s e₁ s₂ hI hmore hle h1)
        (by rwa [decide_eq_true (Nat.succ_pos m)])
    · obtain ⟨rfl, rfl⟩ := pure_eq_ok h
      exact ⟨m, hI⟩

theorem chain_eq_ok {β : Type} {n : Nat} {first : Parse β} {more : State → Bool}
    {link : β → Parse β} {s s' : State} {e : β} (h : chain n first more link s = .ok e s') :
    ∃ left s₁ s₂, first s = .ok left s₁ ∧ links more link n false left s₁ = .ok e s₂ ∧
      s' = s₂.atDepth s.depth := by
  obtain ⟨s₀, s₀', h0, h⟩ := bind_eq_ok.mp h
  cases h0
  obtain ⟨left, s₁, h1, h⟩ := bind_eq_ok.mp h
  obtain ⟨whole, s₂, h2, h⟩ := bind_eq_ok.mp h
  obtain ⟨u, s₃, h3, h⟩ := bind_eq_ok.mp h
  cases h3
  obtain ⟨rfl, rfl⟩ := pure_eq_ok h
  exact ⟨left, s₁, s₂, h1, h2, rfl⟩

/-! ## Expressions -/

/-- The tokens of `e` lie between two positions, and a name has a single token. -/
structure Covers (lo hi : Nat) (e : Expr Origin) : Prop where
  start : lo ≤ e.note.start
  stop : e.note.stop ≤ hi
  name : ∀ a x, e = .name a x → a.stop = a.start + 1

theorem Covers.mono {lo lo' hi hi' : Nat} {e : Expr Origin} (h : Covers lo hi e)
    (hlo : lo' ≤ lo) (hhi : hi ≤ hi') : Covers lo' hi' e :=
  ⟨Nat.le_trans hlo h.start, Nat.le_trans h.stop hhi, h.name⟩

/-- An expression was read. -/
def ExpressionRead (s s' : State) (e : Expr Origin) : Prop :=
  Derived (fun k ws e => Expression k ws (Expr.shape e)) s s' e ∧ Covers s.position s'.position e

/-- An expression of level `p` was read. -/
def LevelRead (p : Precedence) (s s' : State) (e : Expr Origin) : Prop :=
  Derived (fun k ws e => ∃ m, Level p m k ws (Expr.shape e)) s s' e ∧
    Covers s.position s'.position e

/-- A chain of `m` links of level `p` was read since `s₀`; the nesting is still raised. -/
def ChainRead (p : Precedence) (s₀ : State) (m : Nat) (s : State) (e : Expr Origin) : Prop :=
  s.depth = s₀.depth + (m - 1) ∧ Covers s₀.position s.position e ∧
  ∃ k ws, Passed s₀ (s.atDepth s₀.depth) ws ∧ s₀.depth + k ≤ maxNesting ∧ Level p m k ws e.shape

theorem ChainRead.levelRead {p : Precedence} {s₀ s : State} {m : Nat} {e : Expr Origin}
    (h : ChainRead p s₀ m s e) : LevelRead p s₀ (s.atDepth s₀.depth) e := by
  obtain ⟨-, hcov, k, ws, hp, hk, hl⟩ := h
  exact ⟨⟨k, ws, hp, hk, m, hl⟩, hcov⟩

theorem Derived.leave {β : Type} {D : Nat → List Word → β → Prop} {s s' : State} {b : β}
    (h : Derived D (s.atDepth (s.depth + 1)) s' b) :
    ∃ k ws, Passed s s'.leave ws ∧ s.depth + (k + 1) ≤ maxNesting ∧ D k ws b := by
  obtain ⟨k, ws, hp, hk, hD⟩ := h
  have hk : s.depth + 1 + k ≤ maxNesting := hk
  exact ⟨k, ws, hp.leave, by omega, hD⟩

theorem bareName?_eq_some {e : Expr Origin} {start stop : Nat} {x : String}
    (h : bareName? e start stop = some x) :
    ∃ a : Origin, e = .name a x ∧ a.start = start ∧ a.stop = stop := by
  unfold bareName? at h
  split at h
  · rename_i a y
    split at h
    · rename_i hr
      cases h
      exact ⟨a, rfl, hr.1, hr.2⟩
    · exact absurd h (by simp)
  · exact absurd h (by simp)

/-- An operand, or an assignment to a bare name.  The name covers all words of the operand, so
    there is only one of them. -/
theorem assignment_sound {operand value : Parse (Expr Origin)}
    (hoperand : Sound operand (LevelRead .or)) (hvalue : Sound value ExpressionRead) :
    Sound (assignment operand value) fun s s' e =>
      Derived (fun k ws e => Expression (k + 1) ws (Expr.shape e)) s s' e ∧
        Covers s.position s'.position e := by
  intro s e s' hd h
  obtain ⟨s₀, s₀', h0, h⟩ := bind_eq_ok.mp h
  cases h0
  obtain ⟨target, s₁, h1, h⟩ := bind_eq_ok.mp h
  obtain ⟨⟨k, ws, hp1, hk, m, hl⟩, hcov⟩ := hoperand s target s₁ hd h1
  rw [get_bind] at h
  split at h
  · rename_i hassign
    cases hb : bareName? target s.position s₁.position with
    | none => rw [hb] at h; exact absurd h (by nofun)
    | some x =>
      rw [hb] at h
      obtain ⟨a, rfl, hstart, hstop⟩ := bareName?_eq_some hb
      -- the range of the name is that of all words read, and a name is one token
      have hone : ws.length = 1 := by
        have := hcov.name a x rfl
        have := hp1.position
        omega
      obtain ⟨wx, rfl, hatom⟩ := hl.atom_of_length_eq_one hone
      obtain ⟨weq, rest, hw, hwk⟩ := State.words_of_atSymbol hassign
      have hp2 := State.passed_next hw
      obtain ⟨gap, hgap, hp3, -⟩ := State.passed_skipNewlines s₁.next
      have hp := (hp1.trans hp2).trans hp3
      obtain ⟨e', s₂, h2, h⟩ := bind_eq_ok.mp (show (value >>= fun e =>
        originFrom s₁.span s.position >>= fun a => pure (.assign a x e) : Parse (Expr Origin))
          s₁.next.skipNewlines = _ from h)
      obtain ⟨⟨k', ws', hp4, hk', hv⟩, -⟩ := hvalue _ e' s₂ (by rw [hp.depth]; exact hd) h2
      cases h
      have hpall := hp.trans hp4
      obtain ⟨hxk, hxt⟩ := Word.atom?_eq_name hatom
      refine ⟨⟨k', wx :: weq :: gap ++ ws', by simpa using hpall,
        by rw [hp.depth] at hk'; exact hk', ?_⟩, ⟨Nat.le_refl _, Nat.le_refl _, by nofun⟩⟩
      show Expression (k' + 1) _ (.assign () x e'.shape)
      rw [← hxt]
      exact .assign wx weq gap hxk hwk hgap hv
  · obtain ⟨rfl, rfl⟩ := pure_eq_ok h
    exact ⟨⟨k, ws, hp1, hk, .operand hl⟩, hcov⟩

/-- What the parser takes for an operator of a level is one. -/
theorem State.words_of_operator? {s : State} {p : Precedence} {op : Operator}
    (h : s.operator? p = some op) :
    ∃ w ws x, s.words = w :: ws ∧ w.kind = .symbol x ∧ OperatorAt p x op := by
  unfold State.operator? at h
  split at h
  · rename_i x hx
    obtain ⟨w, ws, hw, hk⟩ := State.words_of_kind? hx (by simp)
    exact ⟨w, ws, x, hw, hk, operator?_eq_some_iff.mp h⟩
  · exact absurd h (by simp)

/-- One more operator and its right operand. -/
theorem operationLink_sound {p q : Precedence} (hq : OperandAt p q) {operand : Parse (Expr Origin)}
    (hoperand : Sound operand (LevelRead q)) {s₀ s s' : State} {m : Nat}
    {left e : Expr Origin} (hleft : ChainRead p s₀ m s left)
    (hmore : (s.operator? p).isSome = true) (hd : s₀.depth + m ≤ maxNesting)
    (h : operationLink p operand s₀.position left (s.atDepth (s₀.depth + m)) = .ok e s') :
    ChainRead p s₀ (m + 1) s' e := by
  obtain ⟨-, hcov, k, ws, hp1, hk, hl⟩ := hleft
  obtain ⟨op, hop⟩ := Option.isSome_iff_exists.mp hmore
  obtain ⟨w, rest, x, hw, hwk, hat⟩ := State.words_of_operator? hop
  have hop : (s.atDepth (s₀.depth + m)).operator? p = some op := hop
  rw [operationLink, get_bind, hop] at h
  have hp2 : Passed (s.atDepth (s₀.depth + m)) (s.atDepth (s₀.depth + m)).next [w] :=
    State.passed_next hw
  obtain ⟨gap, hgap, hp3, -⟩ := State.passed_skipNewlines (s.atDepth (s₀.depth + m)).next
  have hp23 := hp2.trans hp3
  obtain ⟨right, s₂, h2, h⟩ := bind_eq_ok.mp (show (operand >>= fun right =>
    originFrom (s.atDepth (s₀.depth + m)).span s₀.position >>= fun a =>
      pure (.operation a op left right) : Parse (Expr Origin))
        (s.atDepth (s₀.depth + m)).next.skipNewlines = _ from h)
  obtain ⟨⟨k', ws', hp4, hk', m', hr⟩, -⟩ := hoperand _ right s₂ (by rw [hp23.depth]; exact hd) h2
  cases h
  have hp := hp23.trans hp4
  have hdepth : s'.depth = s₀.depth + m := hp.depth
  refine ⟨hdepth, ⟨Nat.le_refl _, Nat.le_refl _, by nofun⟩, max k (m + k'),
    ws ++ w :: gap ++ ws', ?_, ?_, .link hat hq w gap hl hwk hgap hr⟩
  · have := hp1.trans (hp.atDepth s₀.depth)
    simpa only [List.append_assoc, List.cons_append, List.nil_append] using this
  · -- the operand was read `m` levels deeper than the chain started
    have hk' : s₀.depth + m + k' ≤ maxNesting := by rw [hp23.depth] at hk'; exact hk'
    omega

/-- Operands of the next tighter level with operators of level `p` between them. -/
theorem operations_sound {p q : Precedence} (hq : OperandAt p q) {operand : Parse (Expr Origin)}
    (hoperand : Sound operand (LevelRead q)) (n : Nat) :
    Sound (operations n p operand) (LevelRead p) := by
  intro s e s' hd h
  obtain ⟨s₀, s₀', h0, h⟩ := bind_eq_ok.mp h
  cases h0
  obtain ⟨left, s₁, s₂, h1, h2, rfl⟩ := chain_eq_ok h
  obtain ⟨⟨k, ws, hp1, hk, m, hl⟩, hcov⟩ := hoperand s left s₁ hd h1
  have hinit : ChainRead p s 0 s₁ left := by
    refine ⟨hp1.depth, hcov, k, ws, ?_, hk, .tighter hq hl⟩
    rw [← hp1.depth]
    exact hp1
  obtain ⟨m', hm'⟩ := links_invariant (I := ChainRead p s) hd (fun m s e h => h.1)
    (fun m left s₃ e s₄ hI hmore hle hlink => operationLink_sound hq hoperand hI hmore hle hlink)
    n 0 left s₁ e s₂ hinit h2
  exact hm'.levelRead

/-- One more argument list. -/
theorem callLink_sound {n : Nat} {argument : Parse (Expr Origin)}
    (hargument : Sound argument ExpressionRead) {s₀ s s' : State} {m : Nat}
    {callee e : Expr Origin} (hcallee : ChainRead .call s₀ m s callee)
    (hmore : s.atSymbol .leftParen = true) (hd : s₀.depth + m ≤ maxNesting)
    (h : callLink n argument s₀.position callee (s.atDepth (s₀.depth + m)) = .ok e s') :
    ChainRead .call s₀ (m + 1) s' e := by
  obtain ⟨-, hcov, k, ws, hp1, hk, hl⟩ := hcallee
  obtain ⟨w, rest, hw, hwk⟩ := State.words_of_atSymbol hmore
  have hp2 : Passed (s.atDepth (s₀.depth + m)) (s.atDepth (s₀.depth + m)).next [w] :=
    State.passed_next hw
  -- what the link reads, part by part
  obtain ⟨args, s₂, h2, h⟩ := bind_eq_ok.mp (show (parenList n (fun _ => argument) >>= fun args =>
    originFrom (s.atDepth (s₀.depth + m)).span s₀.position >>= fun a =>
      pure (.call a callee args) : Parse (Expr Origin)) (s.atDepth (s₀.depth + m)).next = _ from h)
  -- the arguments are derived one by one
  have hargs := parenList_sound (P := fun _ => True)
    (fun _ s e s' hs he => (hargument s e s' hs he).1) trivial (fun _ _ _ _ _ _ => trivial) n
    _ args s₂ (by rw [hp2.depth]; exact hd) h2
  obtain ⟨-, k', ws', hp4, hk', ha⟩ := hargs
  cases h
  have hp := hp2.trans hp4
  have hdepth : s'.depth = s₀.depth + m := hp.depth
  refine ⟨hdepth, ⟨Nat.le_refl _, Nat.le_refl _, by nofun⟩, max k (m + k'), ws ++ w :: ws', ?_,
    ?_, ?_⟩
  · exact hp1.trans (hp.atDepth s₀.depth)
  · have hk' : s₀.depth + m + k' ≤ maxNesting := by rw [hp2.depth] at hk'; exact hk'
    omega
  · show Level .call (m + 1) _ _ (.call () callee.shape (Expr.shapes args))
    rw [Expr.shapes_eq_map]
    exact .call w hl hwk (ha.map fun _ _ _ he => he)

/-- A primary expression and the argument lists after it. -/
theorem calls_sound {callee argument : Parse (Expr Origin)}
    (hcallee : Sound callee fun s s' e =>
      Derived (fun k ws e => Level .call 0 k ws (Expr.shape e)) s s' e ∧
        Covers s.position s'.position e)
    (hargument : Sound argument ExpressionRead) (n : Nat) :
    Sound (calls n callee argument) (LevelRead .call) := by
  intro s e s' hd h
  obtain ⟨s₀, s₀', h0, h⟩ := bind_eq_ok.mp h
  cases h0
  obtain ⟨left, s₁, s₂, h1, h2, rfl⟩ := chain_eq_ok h
  obtain ⟨⟨k, ws, hp1, hk, hl⟩, hcov⟩ := hcallee s left s₁ hd h1
  have hinit : ChainRead .call s 0 s₁ left := by
    refine ⟨hp1.depth, hcov, k, ws, ?_, hk, hl⟩
    rw [← hp1.depth]
    exact hp1
  obtain ⟨m', hm'⟩ := links_invariant (I := ChainRead .call s) hd (fun m s e h => h.1)
    (fun m left s₃ e s₄ hI hmore hle hlink => callLink_sound hargument hI hmore hle hlink)
    n 0 left s₁ e s₂ hinit h2
  exact hm'.levelRead

theorem State.words_of_unaryOp? {s : State} {op : UnaryOp} (h : s.unaryOp? = some op) :
    ∃ w ws x, s.words = w :: ws ∧ w.kind = .symbol x ∧ UnaryAt x op := by
  unfold State.unaryOp? at h
  split at h
  · rename_i x hx
    obtain ⟨w, ws, hw, hk⟩ := State.words_of_kind? hx (by simp)
    exact ⟨w, ws, x, hw, hk, ofSymbol?_eq_some_iff.mp h⟩
  · exact absurd h (by simp)

/-- A unary operator with its operand, or the calls of a primary expression. -/
theorem unaryOr_sound {operand call : Parse (Expr Origin)}
    (hoperand : Sound operand (LevelRead .unary)) (hcall : Sound call (LevelRead .call)) :
    Sound (unaryOr operand call) (LevelRead .unary) := by
  intro s e s' hd h
  rw [unaryOr, get_bind] at h
  cases hop : s.unaryOp? with
  | none =>
    rw [hop] at h
    obtain ⟨⟨k, ws, hp, hk, m, hl⟩, hcov⟩ := hcall s e s' hd h
    exact ⟨⟨k, ws, hp, hk, 0, .tighter .unary hl⟩, hcov⟩
  | some op =>
    rw [hop] at h
    obtain ⟨w, rest, x, hw, hwk, hat⟩ := State.words_of_unaryOp? hop
    have hp1 := State.passed_next hw
    obtain ⟨e', s₁, h1, h⟩ := bind_eq_ok.mp (show (nested operand >>= fun e =>
      originFrom s.span s.position >>= fun a => pure (.unary a op e) : Parse (Expr Origin))
        s.next = _ from h)
    obtain ⟨hlt, s₂, h2, rfl⟩ := nested_eq_ok h1
    obtain ⟨k, ws, hp2, hk, m, hl⟩ :=
      (hoperand (s.next.atDepth (s.next.depth + 1)) e' s₂ hlt h2).1.leave
    cases h
    refine ⟨⟨k + 1, w :: ws, hp1.trans hp2, by rw [hp1.depth] at hk; exact hk, 0, ?_⟩,
      ⟨Nat.le_refl _, Nat.le_refl _, by nofun⟩⟩
    exact .unary hat w hwk hl

/-- The word of a token that is an expression is that expression. -/
theorem atom?_of_leaf? {t : Token} {node : Origin → Expr Origin} (h : leaf? t = some node) :
    t.kind ≠ .eof ∧ ∀ a, t.word.atom? = some (node a).shape ∧ (node a).note = a := by
  obtain ⟨kind, text, span⟩ := t
  match kind with
  | .integer _ | .float _ | .str _ | .identifier =>
    cases h
    exact ⟨nofun, fun a => ⟨rfl, rfl⟩⟩
  | .keyword k => cases k <;> cases h <;> exact ⟨nofun, fun a => ⟨rfl, rfl⟩⟩
  | .symbol _ | .newline | .eof => cases h

/-- A literal, a name, or an expression in parentheses. -/
theorem primary_sound {inner : Parse (Expr Origin)} (hinner : Sound inner ExpressionRead) :
    Sound (primary inner) fun s s' e =>
      Derived (fun k ws e => Level .call 0 k ws (Expr.shape e)) s s' e ∧
        Covers s.position s'.position e := by
  intro s e s' hd h
  rw [primary, get_bind] at h
  split at h
  · rename_i hparen
    obtain ⟨o, rest, hw, ho⟩ := State.words_of_atSymbol hparen
    have hp1 := State.passed_next hw
    obtain ⟨gap, hgap, hp2, -⟩ := State.passed_skipNewlines s.next
    have hp12 := hp1.trans hp2
    obtain ⟨e', s₁, h1, h⟩ := bind_eq_ok.mp (show (inner >>= fun e => skipNewlines >>= fun _ =>
      expect .rightParen .rightParen >>= fun _ => pure e : Parse (Expr Origin))
        s.next.skipNewlines = _ from h)
    obtain ⟨⟨k, ws, hp3, hk, he⟩, hcov⟩ := hinner _ e' s₁ (by rw [hp12.depth]; exact hd) h1
    obtain ⟨gap', hgap', hp4, -⟩ := State.passed_skipNewlines s₁
    obtain ⟨u, s₂, h2, h⟩ := bind_eq_ok.mp (show (expect .rightParen .rightParen >>= fun _ =>
      pure e' : Parse (Expr Origin)) s₁.skipNewlines = _ from h)
    obtain ⟨c, hc, hp5⟩ := expect_eq_ok h2
    obtain ⟨rfl, rfl⟩ := pure_eq_ok h
    have hp45 := hp4.trans hp5
    have hp := (hp12.trans hp3).trans hp45
    -- parentheses leave no node, so the range stays that of the expression inside
    refine ⟨⟨k, o :: gap ++ ws ++ gap' ++ [c], ?_, by rw [hp12.depth] at hk; exact hk,
      .parens o c gap gap' ho hgap he hgap' hc⟩, hcov.mono hp12.position_le hp45.position_le⟩
    simpa only [List.append_assoc, List.cons_append, List.nil_append] using hp
  · cases hleaf : s.rest.head?.bind leaf? with
    | none => rw [hleaf] at h; exact absurd h (by nofun)
    | some node =>
      rw [hleaf] at h
      obtain ⟨t, ht, hnode⟩ := Option.bind_eq_some_iff.mp hleaf
      obtain ⟨hne, hatom⟩ := atom?_of_leaf? hnode
      obtain ⟨ts, hr⟩ := List.head?_eq_some_iff.mp ht
      have hw : s.words = t.word :: Token.words ts := by
        show Token.words s.rest = _
        rw [hr, Token.words_cons, if_neg hne]
      have hp := State.passed_next hw
      cases h
      have ha := hatom ⟨s.span, s.position, s.next.position⟩
      refine ⟨⟨0, [t.word], hp, hd, .atom ha.1⟩, ?_⟩
      have hpos : s.next.position = s.position + 1 := hp.position
      constructor
      · exact Nat.le_of_eq (congrArg Origin.start ha.2).symm
      · exact Nat.le_of_eq (congrArg Origin.stop ha.2)
      · intro a x hax
        have hnote : a = ⟨s.span, s.position, s.next.position⟩ := by
          rw [← ha.2]
          show a = (node _).note
          rw [show node ⟨s.span, s.position, s.next.position⟩ = .name a x from hax]
          rfl
        rw [hnote]
        exact hpos

/-- **Expressions**, by induction on the bound: each rule uses the rules below it at a smaller
    bound. -/
theorem expressions_sound (n : Nat) :
    Sound (expression n) ExpressionRead ∧
    (∀ p, .or ≤ p → p < .call → Sound (level n p) (LevelRead p)) ∧
    Sound (unary n) (LevelRead .unary) := by
  induction n with
  | zero =>
    refine ⟨?_, fun p _ _ => ?_, ?_⟩
    all_goals
      intro s e s' _ h
      exact absurd h (by nofun)
  | succ n ih =>
    obtain ⟨hexpr, hlevel, hunary⟩ := ih
    refine ⟨?_, ?_, ?_⟩
    · intro s e s' hd h
      obtain ⟨hlt, s₁, h1, rfl⟩ := nested_eq_ok h
      obtain ⟨hder, hcov⟩ := assignment_sound (hlevel .or (by decide) (by decide)) hexpr
        (s.atDepth (s.depth + 1)) e s₁ hlt h1
      obtain ⟨k, ws, hp, hk, he⟩ := hder.leave
      exact ⟨⟨k + 1, ws, hp, hk, he⟩, hcov⟩
    · intro p hor hp s e s' hd h
      change (if .unary ≤ p then unary n else operations n p (level n p.tighter)) s = _ at h
      split at h
      · rename_i hle
        have hpu : p = .unary := by
          cases p <;> first | rfl | exact absurd hle (by decide) | exact absurd hp (by decide)
        subst hpu
        exact hunary s e s' hd h
      · rename_i hle
        have htight : .or ≤ p.tighter ∧ p.tighter < .call := by
          cases p <;> first | decide | exact absurd (by decide) hle
        exact operations_sound (operandAt_tighter hor hp) (hlevel p.tighter htight.1 htight.2) n s e
          s' hd h
    · exact unaryOr_sound hunary (calls_sound (primary_sound hexpr) hexpr n)

end Scriptlet.Parse
