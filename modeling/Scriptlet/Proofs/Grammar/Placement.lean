/-
  Placement: the parser does not see the places of its tokens.

  1. **Spec** (`State.Alike`, `Program.ranged`) — two states are alike if their tokens are the same
     words and all counters agree; of two trees the notes may differ in their places, and in nothing
     else.
  2. **Program** (`Alike R p p'`) — from states that are alike, both parsers end with results that
     `R` relates and states that are alike, or with one fault.  Reading the state gives two of them,
     so a parser is related to itself (`Blind`) while its continuations are related in pairs.
  3. **The crux (`statement_blind`)** — every rule of the grammar is blind, with one lemma for each
     rule and one induction on the bound.
-/
import Scriptlet.Error
import Scriptlet.Proofs.Grammar.Walk
import Scriptlet.Proofs.Token.Spacing

namespace Scriptlet

variable {α β γ : Type}

/-! ## Other notes -/

mutual

/-- The expression with every note changed by `f`. -/
def Expr.mapNote (f : α → β) : Expr α → Expr β
  | .literal a v => .literal (f a) v
  | .name a x => .name (f a) x
  | .unary a op e => .unary (f a) op (e.mapNote f)
  | .operation a op l r => .operation (f a) op (l.mapNote f) (r.mapNote f)
  | .assign a x e => .assign (f a) x (e.mapNote f)
  | .call a callee args => .call (f a) (callee.mapNote f) (Expr.mapNotes f args)

/-- Several expressions with every note changed by `f`. -/
def Expr.mapNotes (f : α → β) : List (Expr α) → List (Expr β)
  | [] => []
  | e :: es => e.mapNote f :: Expr.mapNotes f es

end

mutual

/-- The statement with every note changed by `f`. -/
def Stmt.mapNote (f : α → β) : Stmt α → Stmt β
  | .expr a e => .expr (f a) (e.mapNote f)
  | .declare a x e => .declare (f a) x (e.map (Expr.mapNote f))
  | .print a args => .print (f a) (Expr.mapNotes f args)
  | .block a body => .block (f a) (Stmt.mapNotes f body)
  | .cond a c t e => .cond (f a) (c.mapNote f) (Stmt.mapNotes f t) (Stmt.mapNote? f e)
  | .loop a c body => .loop (f a) (c.mapNote f) (Stmt.mapNotes f body)
  | .function a x params body => .function (f a) x params (Stmt.mapNotes f body)
  | .ret a e => .ret (f a) (e.map (Expr.mapNote f))
  | .breakLoop a => .breakLoop (f a)
  | .continueLoop a => .continueLoop (f a)

/-- Several statements with every note changed by `f`. -/
def Stmt.mapNotes (f : α → β) : List (Stmt α) → List (Stmt β)
  | [] => []
  | s :: rest => s.mapNote f :: Stmt.mapNotes f rest

/-- An optional statement with every note changed by `f`. -/
def Stmt.mapNote? (f : α → β) : Option (Stmt α) → Option (Stmt β)
  | none => none
  | some s => some (s.mapNote f)

end

/-- The tokens a node was parsed from, without the place it is reported at. -/
def Origin.range (o : Origin) : Nat × Nat := (o.start, o.stop)

/-- The program with the range of its tokens at every node, and no places. -/
def Program.ranged (p : Program Origin) : Program (Nat × Nat) :=
  ⟨Stmt.mapNotes Origin.range p.statements⟩

/-- Changing notes goes over a list of arguments piece by piece. -/
theorem Expr.mapNotes_append (f : α → β) (es es' : List (Expr α)) :
    Expr.mapNotes f (es ++ es') = Expr.mapNotes f es ++ Expr.mapNotes f es' := by
  induction es with
  | nil => rfl
  | cons e es ih => rw [List.cons_append, Expr.mapNotes, Expr.mapNotes, ih, List.cons_append]

namespace Parse

/-! ## States -/

/-- The states differ in the places of their tokens at most. -/
structure State.Alike (s s' : State) : Prop where
  words : s.rest.map Token.word = s'.rest.map Token.word
  position : s.position = s'.position
  depth : s.depth = s'.depth
  functions : s.functions = s'.functions
  loops : s.loops = s'.loops

namespace State.Alike

variable {s s' : State}

/-- The kind that comes next is part of the words, so every test below agrees too. -/
theorem kind? (h : s.Alike s') : s.kind? = s'.kind? := by
  have hkinds : ∀ s : State, s.kind? = (s.rest.map Token.word).head?.map Word.kind := by
    intro s
    rw [State.kind?, List.head?_map, Option.map_map]
    rfl
  rw [hkinds, hkinds, h.words]

theorem atSymbol (h : s.Alike s') (x : Symbol) : s.atSymbol x = s'.atSymbol x := by
  rw [State.atSymbol, State.atSymbol, h.kind?]

theorem atKeyword (h : s.Alike s') (k : Keyword) : s.atKeyword k = s'.atKeyword k := by
  rw [State.atKeyword, State.atKeyword, h.kind?]

theorem atEnd (h : s.Alike s') : s.atEnd = s'.atEnd := by
  rw [State.atEnd, State.atEnd, h.kind?]

theorem atSeparator (h : s.Alike s') (inBlock : Bool) :
    s.atSeparator inBlock = s'.atSeparator inBlock := by
  rw [State.atSeparator, State.atSeparator, h.kind?]

/-- Both states stand before the same operator of a level, or before none. -/
theorem operator? (h : s.Alike s') (p : Precedence) : s.operator? p = s'.operator? p := by
  rw [State.operator?, State.operator?, h.kind?]

theorem unaryOp? (h : s.Alike s') : s.unaryOp? = s'.unaryOp? := by
  rw [State.unaryOp?, State.unaryOp?, h.kind?]

/-- Nothing comes next in either state, or the same word in both. -/
theorem cases (h : s.Alike s') : (s.rest = [] ∧ s'.rest = []) ∨ ∃ t ts t' ts',
    s.rest = t :: ts ∧ s'.rest = t' :: ts' ∧ t.kind = t'.kind ∧ t.text = t'.text := by
  have hwords := h.words
  cases hrest : s.rest with
  | nil =>
    rw [hrest] at hwords
    exact .inl ⟨rfl, List.map_eq_nil_iff.mp hwords.symm⟩
  | cons t ts =>
    rw [hrest, List.map_cons] at hwords
    obtain ⟨t', ts', hrest', hword, -⟩ := List.map_eq_cons_iff.mp hwords.symm
    have hword : t'.word = t.word := hword
    exact .inr ⟨t, ts, t', ts', rfl, hrest', (congrArg Word.kind hword).symm,
      (congrArg Word.text hword).symm⟩

/-- As many words are left behind in both states. -/
theorem drop (h : s.Alike s') (n : Nat) : (s.drop n).Alike (s'.drop n) where
  words := by
    show (s.rest.drop n).map Token.word = (s'.rest.drop n).map Token.word
    rw [List.map_drop, List.map_drop, h.words]
  position := by
    have hlength := congrArg List.length h.words
    rw [List.length_map, List.length_map] at hlength
    show s.position + (s.rest.take n).length = s'.position + (s'.rest.take n).length
    rw [List.length_take, List.length_take, hlength, h.position]
  depth := h.depth
  functions := h.functions
  loops := h.loops

theorem next (h : s.Alike s') : s.next.Alike s'.next := h.drop 1

/-- A test of kinds skips as many tokens in both states. -/
theorem skipWhile (h : s.Alike s') (p : TokenKind → Bool) :
    (s.skipWhile p).Alike (s'.skipWhile p) := by
  have hrun : ∀ rest : List Token, (rest.takeWhile fun t => p t.kind).length
      = ((rest.map Token.word).takeWhile fun w => p w.kind).length := by
    intro rest
    rw [List.takeWhile_map, List.length_map]
    rfl
  rw [State.skipWhile, State.skipWhile, hrun, hrun, h.words]
  exact h.drop _

theorem skipNewlines (h : s.Alike s') : s.skipNewlines.Alike s'.skipNewlines := h.skipWhile _

theorem skipSeparators (h : s.Alike s') : s.skipSeparators.Alike s'.skipSeparators := h.skipWhile _

/-- The fault that the next token does not fit names its text, and no place. -/
theorem unexpected (h : s.Alike s') (expected : Expectation) :
    (s.unexpected expected).cause = (s'.unexpected expected).cause := by
  unfold State.unexpected
  rcases h.cases with ⟨hrest, hrest'⟩ | ⟨t, ts, t', ts', hrest, hrest', hkind, htext⟩
  · rw [hrest, hrest']
  · rw [hrest, hrest']
    dsimp only
    rw [hkind, htext]
    split <;> rfl

end State.Alike

/-! ## Parsers -/

/-- The results are related and the states alike, or the faults are the same. -/
def Agree (R : β → γ → Prop) : EStateM.Result ParseError State β →
    EStateM.Result ParseError State γ → Prop
  | .ok b s, .ok c s' => R b c ∧ s.Alike s'
  | .error e _, .error e' _ => e.cause = e'.cause
  | _, _ => False

/-- From states that are alike, the two parsers agree. -/
def Alike (R : β → β → Prop) (p p' : Parse β) : Prop := ∀ s s', s.Alike s' → Agree R (p s) (p' s')

/-- A parser that does not see places. -/
abbrev Blind (R : β → β → Prop) (p : Parse β) : Prop := Alike R p p

variable {p p' : Parse β} {f f' : β → Parse γ} {R : β → β → Prop} {Q : γ → γ → Prop}

/-- Results that are related, in states that are alike. -/
theorem alike_pure {b b' : β} (h : R b b') : Alike R (pure b) (pure b') :=
  fun _ _ hs => ⟨h, hs⟩

/-- Faults of one cause; their places may differ. -/
theorem alike_throw {e e' : ParseError} (h : e.cause = e'.cause) :
    Alike R (throw e : Parse β) (throw e') :=
  fun _ _ _ => h

/-- One parser after another: the continuations are related in pairs of related results. -/
theorem Alike.bind (h : Alike R p p') (hf : ∀ b b', R b b' → Alike Q (f b) (f' b')) :
    Alike Q (p >>= f) (p' >>= f') := by
  intro s s' hs
  show Agree Q (EStateM.bind p f s) (EStateM.bind p' f' s')
  have hp := h s s' hs
  unfold EStateM.bind
  generalize p s = r at hp
  generalize p' s' = r' at hp
  -- one parser succeeds exactly when the other does
  cases r with
  | ok b s₁ =>
    cases r' with
    | ok b' s₁' => exact hf b b' hp.1 s₁ s₁' hp.2
    | error e' s₁' => exact hp.elim
  | error e s₁ =>
    cases r' with
    | ok b' s₁' => exact hp.elim
    | error e' s₁' => exact hp

/-- A parser that looks at its state looks at two states that are alike. -/
theorem alike_get {f f' : State → Parse γ}
    (h : ∀ s s', s.Alike s' → Alike Q (f s) (f' s')) : Alike Q (get >>= f) (get >>= f') :=
  fun s s' hs => h s s' hs s s' hs

/-- A change of the state that keeps states alike. -/
theorem alike_modify {g g' : State → State} {f f' : PUnit → Parse γ}
    (hg : ∀ s s', s.Alike s' → (g s).Alike (g' s')) (h : Alike Q (f ⟨⟩) (f' ⟨⟩)) :
    Alike Q (modify g >>= f) (modify g' >>= f') :=
  fun s s' hs => h (g s) (g' s') (hg s s' hs)

/-- A state that is put in place of the present one. -/
theorem alike_set {t t' : State} {f f' : PUnit → Parse γ} (ht : t.Alike t')
    (h : Alike Q (f ⟨⟩) (f' ⟨⟩)) : Alike Q (set t >>= f) (set t' >>= f') :=
  fun _ _ _ => h t t' ht

/-- One token further in both states. -/
theorem alike_advance {f f' : Unit → Parse γ} (h : Alike Q (f ()) (f' ())) :
    Alike Q (advance >>= f) (advance >>= f') :=
  alike_modify (fun _ _ hs => hs.next) h

theorem alike_skipNewlines {f f' : Unit → Parse γ} (h : Alike Q (f ()) (f' ())) :
    Alike Q (skipNewlines >>= f) (skipNewlines >>= f') :=
  alike_modify (fun _ _ hs => hs.skipNewlines) h

/-- A function of the result that keeps results related. -/
theorem Alike.map {g g' : β → γ} (h : Alike R p p') (hg : ∀ b b', R b b' → Q (g b) (g' b')) :
    Alike Q (g <$> p) (g' <$> p') := by
  rw [map_eq_pure_bind, map_eq_pure_bind]
  exact h.bind fun b b' hb => alike_pure (hg b b' hb)

/-- A tidy-up that changes counters only. -/
theorem Alike.always {tidy tidy' : State → State} (h : Alike R p p')
    (htidy : ∀ s s', s.Alike s' → (tidy s).Alike (tidy' s')) :
    Alike R (always tidy p) (always tidy' p') := by
  intro s s' hs
  have hp := h s s' hs
  unfold Scriptlet.always
  generalize p s = r at hp
  generalize p' s' = r' at hp
  cases r with
  | ok b s₁ =>
    cases r' with
    | ok b' s₁' => exact ⟨hp.1, htidy s₁ s₁' hp.2⟩
    | error e' s₁' => exact hp.elim
  | error e s₁ =>
    cases r' with
    | ok b' s₁' => exact hp.elim
    | error e' s₁' => exact hp

/-! ## Single steps -/

/-- The fault names no place but the state's. -/
theorem blind_tooDeep : Blind R (tooDeep : Parse β) :=
  alike_get fun _ _ _ => alike_throw rfl

/-- The token found is named by its kind and text, its place comes with the state. -/
theorem blind_unexpected (expected : Expectation) : Blind R (unexpected expected : Parse β) :=
  alike_get fun _ _ hs => alike_throw (hs.unexpected expected)

/-- A symbol is there in both states or in neither. -/
theorem blind_expect (x : Symbol) (expected : Expectation) : Blind Eq (expect x expected) := by
  refine alike_get fun s s' hs => ?_
  rw [hs.atSymbol x]
  split
  · exact fun _ _ hs => ⟨rfl, hs.next⟩
  · exact blind_unexpected expected

/-- A name has the same text in both states. -/
theorem blind_identifier (expected : Expectation) : Blind Eq (identifier expected) := by
  refine alike_get fun s s' hs => ?_
  rcases hs.cases with ⟨hrest, hrest'⟩ | ⟨t, ts, t', ts', hrest, hrest', hkind, htext⟩
  · rw [hrest, hrest']
    exact blind_unexpected expected
  · rw [hrest, hrest']
    dsimp only
    rw [hkind]
    split
    · exact alike_advance (alike_pure htext)
    · exact blind_unexpected expected

/-- One level deeper, or too deep in both. -/
theorem alike_enter {f f' : Unit → Parse γ} (h : Alike Q (f ()) (f' ())) :
    Alike Q (enter >>= f) (enter >>= f') := by
  intro s s' hs
  rw [enter, bind_assoc, bind_assoc, get_bind, get_bind, hs.depth]
  split
  · exact h _ _ ⟨hs.words, hs.position, congrArg (· + 1) hs.depth, hs.functions, hs.loops⟩
  · rfl

/-- The depth goes up and down again in both. -/
theorem Alike.nested (h : Alike R p p') : Alike R (nested p) (nested p') := by
  refine alike_enter (h.always fun s s' hs => ?_)
  exact ⟨hs.words, hs.position, congrArg (· - 1) hs.depth, hs.functions, hs.loops⟩

/-- The counters of the function that is read are alike before and after. -/
theorem Alike.inFunction (h : Alike R p p') : Alike R (inFunction p) (inFunction p') := by
  refine alike_get fun s s' hs => ?_
  refine alike_modify (fun t t' ht => ?_) (h.always fun t t' ht => ?_)
  · exact ⟨ht.words, ht.position, ht.depth, congrArg (· + 1) ht.functions, rfl⟩
  · exact ⟨ht.words, ht.position, ht.depth, congrArg (· - 1) ht.functions, hs.loops⟩

/-- So is the counter of loops. -/
theorem Alike.inLoop (h : Alike R p p') : Alike R (inLoop p) (inLoop p') := by
  refine alike_modify (fun t t' ht => ?_) (h.always fun t t' ht => ?_)
  · exact ⟨ht.words, ht.position, ht.depth, ht.functions, congrArg (· + 1) ht.loops⟩
  · exact ⟨ht.words, ht.position, ht.depth, ht.functions, congrArg (· - 1) ht.loops⟩

/-! ## Repetition -/

section Lists

variable {Rs : List β → List β → Prop} {item : List β → Parse β}

/-- A relation of lists that a related item at the end of both keeps. -/
def Grows (R : β → β → Prop) (Rs : List β → List β → Prop) : Prop :=
  ∀ xs xs' x x', Rs xs xs' → R x x' → Rs (xs ++ [x]) (xs' ++ [x'])

/-- Items after commas, by induction on the bound; the items so far are related. -/
theorem commaList_alike (hgrows : Grows R Rs)
    (hitem : ∀ xs xs', Rs xs xs' → Alike R (item xs) (item xs')) (n : Nat) :
    ∀ xs xs', Rs xs xs' → Alike Rs (commaList item n xs) (commaList item n xs') := by
  induction n with
  | zero => exact fun _ _ _ => blind_tooDeep
  | succ n ih =>
    intro xs xs' hxs
    refine (hitem xs xs' hxs).bind fun x x' hx => ?_
    have hmore := hgrows xs xs' x x' hxs hx
    refine alike_skipNewlines (alike_get fun s s' hs => ?_)
    rw [hs.atSymbol .comma]
    split
    · -- both runs stand at a comma, or neither does
      exact alike_advance (alike_skipNewlines (ih _ _ hmore))
    · exact alike_pure hmore

/-- A list in parentheses, starting from no items. -/
theorem parenList_blind (hnil : Rs [] []) (hgrows : Grows R Rs)
    (hitem : ∀ xs xs', Rs xs xs' → Alike R (item xs) (item xs')) (n : Nat) :
    Blind Rs (parenList n item) := by
  -- both ways to the closing parenthesis go on there, so what they share is related first
  have hclose : ∀ xs xs', Rs xs xs' →
      Alike Rs (do expect .rightParen .rightParen; return xs)
        (do expect .rightParen .rightParen; return xs') :=
    fun xs xs' hxs => (blind_expect _ _).bind fun _ _ _ => alike_pure hxs
  refine alike_skipNewlines (alike_get fun s s' hs => ?_)
  dsimp only
  rw [hs.atSymbol .rightParen]
  split
  · exact (alike_pure hnil).bind hclose
  · exact (commaList_alike hgrows hitem n [] [] hnil).bind hclose

end Lists

section Chains

variable {more : State → Bool} {link : β → Parse β} {first : Parse β}

/-- The links of a chain, by induction on the bound; what is chained so far is related. -/
theorem links_alike (hmore : ∀ s s', s.Alike s' → more s = more s')
    (hlink : ∀ b b', R b b' → Alike R (link b) (link b')) (n : Nat) : ∀ chained b b', R b b' →
      Alike R (links more link n chained b) (links more link n chained b') := by
  induction n with
  | zero => exact fun _ _ _ _ => blind_tooDeep
  | succ n ih =>
    intro chained b b' hb
    refine alike_get fun s s' hs => ?_
    rw [hmore s s' hs]
    split
    · -- the first link of a chain does not nest, the later ones do
      have hnext := (hlink b b' hb).bind fun e e' he => ih true e e' he
      cases chained with
      | true => exact alike_enter hnext
      | false => exact hnext
    · exact alike_pure hb

/-- A chain: its first operand and its links. -/
theorem chain_blind (hfirst : Blind R first) (hmore : ∀ s s', s.Alike s' → more s = more s')
    (hlink : ∀ b b', R b b' → Alike R (link b) (link b')) (n : Nat) :
    Blind R (chain n first more link) := by
  refine alike_get fun s s' hs => ?_
  refine hfirst.bind fun b b' hb => ?_
  refine (links_alike hmore hlink n false b b' hb).bind fun e e' he => ?_
  -- the depth comes back to what it was before the chain
  refine alike_modify (fun t t' ht => ?_) (alike_pure he)
  exact ⟨ht.words, ht.position, hs.depth, ht.functions, ht.loops⟩

end Chains

/-! ## Expressions -/

/-- The origins have the same range. -/
abbrev SameRange (o o' : Origin) : Prop := o.range = o'.range

/-- The expressions differ in their places at most. -/
abbrev SameExpr (e e' : Expr Origin) : Prop := e.mapNote Origin.range = e'.mapNote Origin.range

/-- The lists of expressions differ in their places at most. -/
abbrev SameExprs (es es' : List (Expr Origin)) : Prop :=
  Expr.mapNotes Origin.range es = Expr.mapNotes Origin.range es'

section Nodes

variable {a a' : Origin} {e e' l l' r r' : Expr Origin} {args args' : List (Expr Origin)}

/-- The same literal over the same tokens. -/
theorem SameExpr.literal (v : Literal) (ha : SameRange a a') :
    SameExpr (.literal a v) (.literal a' v) :=
  congrArg (Expr.literal · v) ha

/-- The same name over the same tokens. -/
theorem SameExpr.name (x : String) (ha : SameRange a a') : SameExpr (.name a x) (.name a' x) :=
  congrArg (Expr.name · x) ha

/-- A sign in front of expressions that differ in places only. -/
theorem SameExpr.unary (op : UnaryOp) (ha : SameRange a a') (he : SameExpr e e') :
    SameExpr (.unary a op e) (.unary a' op e') := by
  show Expr.unary a.range op (e.mapNote _) = .unary a'.range op (e'.mapNote _)
  rw [ha, he]

/-- An infix operation of operands that differ in places only. -/
theorem SameExpr.operation (op : Operator) (ha : SameRange a a') (hl : SameExpr l l')
    (hr : SameExpr r r') : SameExpr (.operation a op l r) (.operation a' op l' r') := by
  show Expr.operation a.range op (l.mapNote _) (r.mapNote _)
    = .operation a'.range op (l'.mapNote _) (r'.mapNote _)
  rw [ha, hl, hr]

/-- An assignment of values that differ in places only. -/
theorem SameExpr.assign (x : String) (ha : SameRange a a') (he : SameExpr e e') :
    SameExpr (.assign a x e) (.assign a' x e') := by
  show Expr.assign a.range x (e.mapNote _) = .assign a'.range x (e'.mapNote _)
  rw [ha, he]

/-- A call whose callee and arguments differ in places only. -/
theorem SameExpr.call (ha : SameRange a a') (he : SameExpr e e') (hargs : SameExprs args args') :
    SameExpr (.call a e args) (.call a' e' args') := by
  show Expr.call a.range (e.mapNote _) (Expr.mapNotes _ args)
    = .call a'.range (e'.mapNote _) (Expr.mapNotes _ args')
  rw [ha, he, hargs]

/-- An argument that is added keeps lists of arguments related. -/
theorem grows_sameExprs : Grows SameExpr SameExprs := by
  intro es es' e e' hes he
  rw [SameExprs, Expr.mapNotes_append, Expr.mapNotes_append, hes]
  exact congrArg (_ ++ [·]) he

end Nodes

/-- The place of a node is taken from the state, its range from the position. -/
theorem alike_originFrom {span span' : Span} {start : Nat} :
    Alike SameRange (originFrom span start) (originFrom span' start) := by
  refine alike_get fun s s' hs => alike_pure ?_
  rw [SameRange, Origin.range, Origin.range, hs.position]

/-- Whether an expression is a bare name is up to its ranges. -/
theorem bareName?_congr {e e' : Expr Origin} (h : SameExpr e e') (start stop : Nat) :
    bareName? e start stop = bareName? e' start stop := by
  cases e with
  -- its range tells a bare name from one in parentheses
  | name o x =>
    cases e' with
    | name o' x' =>
      obtain ⟨hrange, rfl⟩ := Expr.name.inj h
      obtain ⟨hstart, hstop⟩ := Prod.mk.inj hrange
      rw [bareName?, bareName?, hstart, hstop]
    | _ => exact absurd h (by simp [SameExpr, Expr.mapNote])
  | _ =>
    cases e' with
    | name o' x' => exact absurd h (by simp [SameExpr, Expr.mapNote])
    | _ => rfl

/-- An assignment, or only its target; what stands before `=` is the same kind of node. -/
theorem assignment_blind {operand value : Parse (Expr Origin)} (hoperand : Blind SameExpr operand)
    (hvalue : Blind SameExpr value) : Blind SameExpr (assignment operand value) := by
  refine alike_get fun s₀ s₀' hs₀ => ?_
  refine hoperand.bind fun target target' htarget => ?_
  refine alike_get fun s s' hs => ?_
  -- a bare name is told by its range, and ranges are counted, not located
  rw [hs.atSymbol .assign, bareName?_congr htarget, hs₀.position, hs.position]
  split
  · split
    · exact alike_throw rfl
    · refine alike_advance (alike_skipNewlines (hvalue.bind fun e e' he => ?_))
      exact alike_originFrom.bind fun a a' ha => alike_pure (.assign _ ha he)
  · exact alike_pure htarget

/-- One operator of a level with its right operand. -/
theorem operationLink_alike {operand : Parse (Expr Origin)} (hoperand : Blind SameExpr operand)
    (p : Precedence) (start : Nat) (left left' : Expr Origin) (hleft : SameExpr left left') :
    Alike SameExpr (operationLink p operand start left) (operationLink p operand start left') := by
  refine alike_get fun s s' hs => ?_
  rw [hs.operator? p]
  split
  · exact alike_pure hleft
  · refine alike_advance (alike_skipNewlines (hoperand.bind fun e e' he => ?_))
    exact alike_originFrom.bind fun a a' ha => alike_pure (.operation _ ha hleft he)

/-- The operations of one level, from that of the operands. -/
theorem operations_blind {operand : Parse (Expr Origin)} (hoperand : Blind SameExpr operand)
    (n : Nat) (p : Precedence) : Blind SameExpr (operations n p operand) := by
  refine alike_get fun s s' hs => ?_
  rw [hs.position]
  refine chain_blind hoperand (fun t t' ht => ?_) (operationLink_alike hoperand p _) n
  rw [ht.operator? p]

/-- Arguments in parentheses. -/
theorem arguments_blind {argument : Parse (Expr Origin)} (hargument : Blind SameExpr argument)
    (n : Nat) : Blind SameExprs (parenList n fun _ => argument) := by
  have hnil : SameExprs [] [] := rfl
  exact parenList_blind hnil grows_sameExprs (fun _ _ _ => hargument) n

/-- One pair of parentheses behind a callee. -/
theorem callLink_alike {argument : Parse (Expr Origin)} (hargument : Blind SameExpr argument)
    (n start : Nat) (callee callee' : Expr Origin) (hcallee : SameExpr callee callee') :
    Alike SameExpr (callLink n argument start callee) (callLink n argument start callee') := by
  refine alike_get fun s s' hs => alike_advance ?_
  refine (arguments_blind hargument n).bind fun args args' hargs => ?_
  exact alike_originFrom.bind fun a a' ha => alike_pure (.call ha hcallee hargs)

/-- A callee and the calls behind it. -/
theorem calls_blind {callee argument : Parse (Expr Origin)} (hcallee : Blind SameExpr callee)
    (hargument : Blind SameExpr argument) (n : Nat) :
    Blind SameExpr (calls n callee argument) := by
  refine alike_get fun s s' hs => ?_
  rw [hs.position]
  exact chain_blind hcallee (fun t t' ht => ht.atSymbol _) (callLink_alike hargument n _) n

/-- A sign and its operand, or what else stands there. -/
theorem unaryOr_blind {operand call : Parse (Expr Origin)} (hoperand : Blind SameExpr operand)
    (hcall : Blind SameExpr call) : Blind SameExpr (unaryOr operand call) := by
  refine alike_get fun s s' hs => ?_
  rw [hs.unaryOp?, hs.position]
  split
  · exact hcall
  · refine alike_advance (hoperand.nested.bind fun e e' he => ?_)
    exact alike_originFrom.bind fun a a' ha => alike_pure (.unary _ ha he)

/-- The expression of the next token is a matter of its kind and its text. -/
theorem leaf?_congr {t t' : Token} (hkind : t.kind = t'.kind) (htext : t.text = t'.text) :
    leaf? t = leaf? t' := by
  unfold leaf?
  rw [hkind, htext]

/-- A token that is an expression by itself is one at every place. -/
theorem sameExpr_of_leaf? {t : Token} {node : Origin → Expr Origin} (h : leaf? t = some node)
    {a a' : Origin} (ha : SameRange a a') : SameExpr (node a) (node a') := by
  obtain ⟨kind, text, span⟩ := t
  match kind with
  | .integer _ | .float _ | .str _ =>
    cases h
    exact .literal _ ha
  | .identifier =>
    cases h
    exact .name _ ha
  | .keyword k => cases k <;> cases h <;> exact .literal _ ha
  | .symbol _ | .newline | .eof => cases h

/-- A token by itself, or an expression in parentheses. -/
theorem primary_blind {inner : Parse (Expr Origin)} (hinner : Blind SameExpr inner) :
    Blind SameExpr (primary inner) := by
  refine alike_get fun s s' hs => ?_
  rw [hs.atSymbol .leftParen]
  split
  · -- in parentheses
    refine alike_advance (alike_skipNewlines (hinner.bind fun e e' he => ?_))
    refine alike_skipNewlines ?_
    exact (blind_expect .rightParen .rightParen).bind fun _ _ _ => alike_pure he
  · -- a single token, which is judged by its kind and its text
    have hleaf : s.rest.head?.bind leaf? = s'.rest.head?.bind leaf? := by
      rcases hs.cases with ⟨hrest, hrest'⟩ | ⟨t, ts, t', ts', hrest, hrest', hkind, htext⟩
      · rw [hrest, hrest']
      · rw [hrest, hrest']
        exact leaf?_congr hkind htext
    rw [hleaf, hs.position]
    split
    · exact blind_unexpected .expression
    · next node hnode =>
      obtain ⟨t, -, hnode⟩ := Option.bind_eq_some_iff.mp hnode
      refine alike_advance (alike_originFrom.bind fun a a' ha => alike_pure ?_)
      exact sameExpr_of_leaf? hnode ha

/-- **Expressions do not see places**, by induction on the bound: an expression, the operations of
    every level, and a sign with its operand. -/
theorem expressions_blind (n : Nat) :
    Blind SameExpr (expression n) ∧ (∀ p, Blind SameExpr (level n p)) ∧
      Blind SameExpr (unary n) := by
  induction n with
  | zero => exact ⟨blind_tooDeep, fun _ => blind_tooDeep, blind_tooDeep⟩
  | succ n ih =>
    obtain ⟨hexpr, hlevel, hunary⟩ := ih
    refine ⟨(assignment_blind (hlevel .or) hexpr).nested, fun p => ?_, ?_⟩
    · rw [level]
      split
      · exact hunary
      · exact operations_blind (hlevel p.tighter) n p
    · exact unaryOr_blind hunary (calls_blind (primary_blind hexpr) hexpr n)

/-! ## Statements -/

/-- The statements differ in their places at most. -/
abbrev SameStmt (s s' : Stmt Origin) : Prop := s.mapNote Origin.range = s'.mapNote Origin.range

/-- The lists of statements differ in their places at most. -/
abbrev SameStmts (b b' : List (Stmt Origin)) : Prop :=
  Stmt.mapNotes Origin.range b = Stmt.mapNotes Origin.range b'

/-- The branches after `else`, if any, differ in their places at most. -/
abbrev SameBranch (e e' : Option (Stmt Origin)) : Prop :=
  Stmt.mapNote? Origin.range e = Stmt.mapNote? Origin.range e'

section Nodes

variable {a a' : Origin} {c c' e e' : Expr Origin} {args args' : List (Expr Origin)}
  {s s' : Stmt Origin} {t t' : List (Stmt Origin)} {branch branch' : Option (Stmt Origin)}
  {x x' : String} {params params' : List String}

/-- An expression as a statement. -/
theorem SameStmt.expr (ha : SameRange a a') (he : SameExpr e e') :
    SameStmt (.expr a e) (.expr a' e') := by
  show Stmt.expr a.range (e.mapNote _) = .expr a'.range (e'.mapNote _)
  rw [ha, he]

/-- A declaration without a value. -/
theorem SameStmt.declare (ha : SameRange a a') (hx : x = x') :
    SameStmt (.declare a x none) (.declare a' x' none) := by
  show Stmt.declare a.range x none = .declare a'.range x' none
  rw [ha, hx]

/-- A declaration with a value. -/
theorem SameStmt.declareAs (ha : SameRange a a') (hx : x = x') (he : SameExpr e e') :
    SameStmt (.declare a x (some e)) (.declare a' x' (some e')) := by
  show Stmt.declare a.range x (some (e.mapNote _)) = .declare a'.range x' (some (e'.mapNote _))
  rw [ha, hx, he]

/-- A `print` of arguments that differ in places only. -/
theorem SameStmt.print (ha : SameRange a a') (hargs : SameExprs args args') :
    SameStmt (.print a args) (.print a' args') := by
  show Stmt.print a.range (Expr.mapNotes _ args) = .print a'.range (Expr.mapNotes _ args')
  rw [ha, hargs]

/-- A block whose statements differ in places only. -/
theorem SameStmt.block (ha : SameRange a a') (ht : SameStmts t t') :
    SameStmt (.block a t) (.block a' t') := by
  show Stmt.block a.range (Stmt.mapNotes _ t) = .block a'.range (Stmt.mapNotes _ t')
  rw [ha, ht]

/-- A conditional whose parts differ in places only. -/
theorem SameStmt.cond (ha : SameRange a a') (hc : SameExpr c c') (ht : SameStmts t t')
    (hbranch : SameBranch branch branch') :
    SameStmt (.cond a c t branch) (.cond a' c' t' branch') := by
  show Stmt.cond a.range (c.mapNote _) (Stmt.mapNotes _ t) (Stmt.mapNote? _ branch)
    = .cond a'.range (c'.mapNote _) (Stmt.mapNotes _ t') (Stmt.mapNote? _ branch')
  rw [ha, hc, ht, hbranch]

/-- A loop whose condition and body differ in places only. -/
theorem SameStmt.loop (ha : SameRange a a') (hc : SameExpr c c') (ht : SameStmts t t') :
    SameStmt (.loop a c t) (.loop a' c' t') := by
  show Stmt.loop a.range (c.mapNote _) (Stmt.mapNotes _ t)
    = .loop a'.range (c'.mapNote _) (Stmt.mapNotes _ t')
  rw [ha, hc, ht]

/-- A definition of one function whose bodies differ in places only. -/
theorem SameStmt.function (ha : SameRange a a') (hx : x = x') (hparams : params = params')
    (ht : SameStmts t t') : SameStmt (.function a x params t) (.function a' x' params' t') := by
  show Stmt.function a.range x params (Stmt.mapNotes _ t)
    = .function a'.range x' params' (Stmt.mapNotes _ t')
  rw [ha, hx, hparams, ht]

/-- A `return` without a value. -/
theorem SameStmt.ret (ha : SameRange a a') : SameStmt (.ret a none) (.ret a' none) :=
  congrArg (Stmt.ret · none) ha

/-- A `return` with a value. -/
theorem SameStmt.retValue (ha : SameRange a a') (he : SameExpr e e') :
    SameStmt (.ret a (some e)) (.ret a' (some e')) := by
  show Stmt.ret a.range (some (e.mapNote _)) = .ret a'.range (some (e'.mapNote _))
  rw [ha, he]

/-- One statement more in front of both. -/
theorem SameStmts.cons (hs : SameStmt s s') (ht : SameStmts t t') :
    SameStmts (s :: t) (s' :: t') := by
  show s.mapNote _ :: Stmt.mapNotes _ t = s'.mapNote _ :: Stmt.mapNotes _ t'
  rw [hs, ht]

end Nodes

/-- With origins of the same range, two statements that lack theirs differ in their places at
    most. -/
def SameNode (node node' : Origin → Stmt Origin) : Prop :=
  ∀ a a', SameRange a a' → SameStmt (node a) (node' a')

variable {expression : Parse (Expr Origin)} {block : Parse (List (Stmt Origin))}

/-- A declaration, with a value or without. -/
theorem declaration_blind (hexpr : Blind SameExpr expression) :
    Blind SameNode (declaration expression) := by
  refine alike_advance ((blind_identifier _).bind fun x x' hx => ?_)
  refine alike_get fun s s' hs => ?_
  rw [hs.atSymbol .assign]
  split
  · refine alike_advance (alike_skipNewlines (hexpr.bind fun e e' he => alike_pure ?_))
    exact fun a a' ha => .declareAs ha hx he
  · exact alike_pure fun a a' ha => .declare ha hx

/-- A parameter; whether the name was there before depends on the names only. -/
theorem parameter_blind (before : List String) : Blind Eq (parameter before) := by
  refine alike_get fun s s' hs => (blind_identifier _).bind fun x x' hx => ?_
  rw [hx]
  split
  · exact alike_throw rfl
  · exact alike_pure rfl

/-- A definition: its name, its parameters, and its body inside one more function. -/
theorem definition_blind (hblock : Blind SameStmts block) (n : Nat) :
    Blind SameNode (definition n block) := by
  have hgrows : Grows Eq (Eq : List String → List String → Prop) := by
    rintro xs _ x _ rfl rfl
    rfl
  have hitem : ∀ xs xs', xs = xs' → Alike Eq (parameter xs) (parameter xs') := by
    rintro xs _ rfl
    exact parameter_blind xs
  refine alike_advance ((blind_identifier _).bind fun f f' hf => ?_)
  refine (blind_expect _ _).bind fun _ _ _ => ?_
  refine (parenList_blind rfl hgrows hitem n).bind fun params params' hparams => ?_
  refine hblock.inFunction.bind fun body body' hbody => ?_
  exact alike_pure fun a a' ha => .function ha hf hparams hbody

/-- A loop: its condition, and its body inside one more loop. -/
theorem whileLoop_blind (hexpr : Blind SameExpr expression) (hblock : Blind SameStmts block) :
    Blind SameNode (whileLoop expression block) := by
  refine alike_advance (hexpr.bind fun c c' hc => ?_)
  exact hblock.inLoop.bind fun body body' hbody => alike_pure fun a a' ha => .loop ha hc hbody

/-- A `return`, with a value unless a separator follows. -/
theorem returned_blind (hexpr : Blind SameExpr expression) :
    Blind SameNode (returned expression) := by
  refine alike_get fun s s' hs => ?_
  rw [hs.functions]
  split
  · exact alike_throw rfl
  · refine alike_advance (alike_get fun t t' ht => ?_)
    rw [ht.atSeparator true]
    split
    · exact alike_pure fun a a' ha => .ret ha
    · exact hexpr.bind fun e e' he => alike_pure fun a a' ha => .retValue ha he

/-- A `print` with its arguments. -/
theorem printed_blind (hexpr : Blind SameExpr expression) (n : Nat) :
    Blind SameNode (printed n expression) := by
  refine alike_advance ((blind_expect _ _).bind fun _ _ _ => ?_)
  refine (arguments_blind hexpr n).bind fun args args' hargs => ?_
  exact alike_pure fun a a' ha => .print ha hargs

/-- A `break` or `continue`; whether a loop is around is a counter of the state. -/
theorem loopControl_blind (keyword : Keyword) {node : Origin → Stmt Origin}
    (hnode : SameNode node node) : Blind SameNode (loopControl keyword node) := by
  refine alike_get fun s s' hs => ?_
  rw [hs.loops]
  split
  · exact alike_throw rfl
  · exact alike_advance (alike_pure hnode)

/-- A statement that is no conditional: its first token tells the rule. -/
theorem simpleStatement_blind (hexpr : Blind SameExpr expression) (hblock : Blind SameStmts block)
    (n : Nat) : Blind SameNode (simpleStatement n expression block) := by
  refine alike_get fun s s' hs => ?_
  rw [hs.kind?]
  -- the kind of the first token is the same, and so is the rule it chooses
  split
  · exact declaration_blind hexpr
  · exact definition_blind hblock n
  · exact whileLoop_blind hexpr hblock
  · exact returned_blind hexpr
  · exact loopControl_blind _ fun a a' ha => congrArg Stmt.breakLoop ha
  · exact loopControl_blind _ fun a a' ha => congrArg Stmt.continueLoop ha
  · exact printed_blind hexpr n
  · exact hblock.bind fun body body' hbody => alike_pure fun a a' ha => .block ha hbody
  · exact hexpr.bind fun e e' he => alike_pure fun a a' ha => .expr ha he

/-- What follows `else`: another conditional, or a block. -/
theorem elseBranch_blind {conditional : Parse (Stmt Origin)} (hcond : Blind SameStmt conditional)
    (hblock : Blind SameStmts block) : Blind SameStmt (elseBranch conditional block) := by
  refine alike_get fun s s' hs => ?_
  rw [hs.atKeyword .ifKw, hs.position]
  split
  · exact hcond.nested
  · refine hblock.bind fun body body' hbody => ?_
    exact alike_originFrom.bind fun a a' ha => alike_pure (.block ha hbody)

/-- A conditional, with a branch for `else` or without. -/
theorem conditional_blind {branch : Parse (Stmt Origin)} (hexpr : Blind SameExpr expression)
    (hblock : Blind SameStmts block) (hbranch : Blind SameStmt branch) :
    Blind SameStmt (conditional expression block branch) := by
  refine alike_get fun s₀ s₀' hs₀ => alike_advance ?_
  refine hexpr.bind fun c c' hc => hblock.bind fun t t' ht => ?_
  refine alike_get fun s s' hs => ?_
  have hahead := hs.skipNewlines
  have hnone : SameBranch none none := rfl
  -- the node is built alike with or without a branch
  have hend : ∀ e e', SameBranch e e' →
      Alike SameStmt (do return .cond (← originFrom s₀.span s₀.position) c t e)
        (do return .cond (← originFrom s₀'.span s₀'.position) c' t' e') := by
    intro e e' he
    rw [hs₀.position]
    exact alike_originFrom.bind fun a a' ha => alike_pure (.cond ha hc ht he)
  dsimp only
  rw [hahead.atKeyword .elseKw]
  split
  · -- `else` comes next, perhaps after newlines
    refine alike_set hahead (alike_advance ((hbranch.map fun b b' hb => ?_).bind hend))
    exact congrArg some hb
  · -- no `else`: the newlines are left for the separators
    exact (alike_pure hnone).bind hend

/-- Statements with separators between, by induction on the bound. -/
theorem statements_blind {statement : Parse (Stmt Origin)} (hstmt : Blind SameStmt statement)
    (inBlock : Bool) (n : Nat) : Blind SameStmts (statements statement inBlock n) := by
  induction n with
  | zero => exact blind_tooDeep
  | succ n ih =>
    refine alike_modify (fun _ _ hs => hs.skipSeparators) (alike_get fun s s' hs => ?_)
    rw [hs.atEnd, hs.atSymbol .rightBrace]
    split
    · -- the statements stop here
      exact alike_pure rfl
    · -- one more, and then a separator or the end
      refine hstmt.bind fun first first' hfirst => alike_get fun t t' ht => ?_
      rw [ht.atSeparator inBlock]
      split
      · exact ih.bind fun others others' hothers => alike_pure (.cons hfirst hothers)
      · exact blind_unexpected .separator

/-- Statements in braces. -/
theorem braced_blind {statement : Parse (Stmt Origin)} (hstmt : Blind SameStmt statement)
    (n : Nat) : Blind SameStmts (braced n statement) := by
  refine (blind_expect _ _).bind fun _ _ _ => alike_enter ?_
  refine (statements_blind hstmt true n).bind fun body body' hbody => ?_
  refine alike_modify (fun s s' hs => ?_) ?_
  · exact ⟨hs.words, hs.position, congrArg (· - 1) hs.depth, hs.functions, hs.loops⟩
  · exact (blind_expect _ _).bind fun _ _ _ => alike_pure hbody

/-- **No rule sees places**, by induction on the bound. -/
theorem statement_blind (n : Nat) : Blind SameStmt (statement n) ∧ Blind SameStmt (ifStatement n) ∧
    Blind SameStmts (Parse.block n) := by
  induction n with
  | zero => exact ⟨blind_tooDeep, blind_tooDeep, blind_tooDeep⟩
  | succ n ih =>
    obtain ⟨hstmt, hif, hblock⟩ := ih
    obtain ⟨hexpr, -, -⟩ := expressions_blind n
    refine ⟨?_, ?_, ?_⟩
    · refine alike_get fun s s' hs => ?_
      rw [hs.atKeyword .ifKw, hs.position]
      split
      · exact hif
      · refine (simpleStatement_blind hexpr hblock n).bind fun node node' hnode => ?_
        exact alike_originFrom.bind fun a a' ha => alike_pure (hnode a a' ha)
    · exact conditional_blind hexpr hblock (elseBranch_blind hif hblock)
    · exact braced_blind hstmt n

end Parse

/-! ## Programs -/

/-- **The parser does not see places**: of two lists of the same words both are rejected with the
    same fault, or both accepted with programs that differ in their places at most. -/
theorem parse_alike {tokens tokens' : List Token}
    (h : tokens.map Token.word = tokens'.map Token.word) :
    (∃ p p', parse tokens = .ok p ∧ parse tokens' = .ok p' ∧ p.ranged = p'.ranged) ∨
      ∃ e e', parse tokens = .error e ∧ parse tokens' = .error e' ∧ e.cause = e'.cause := by
  -- both runs have one bound, for it depends on the number of tokens only
  have hlength : tokens.length = tokens'.length := by
    simpa using congrArg List.length h
  have hblind := Parse.statements_blind (Parse.statement_blind (Parse.bound tokens)).1 false
    (Parse.bound tokens) (.initial tokens) (.initial tokens') ⟨h, rfl, rfl, rfl, rfl⟩
  unfold parse
  rw [show Parse.bound tokens' = Parse.bound tokens by rw [Parse.bound, Parse.bound, hlength]]
  dsimp only
  generalize Parse.statements _ _ _ (.initial tokens) = r at hblind
  generalize Parse.statements _ _ _ (.initial tokens') = r' at hblind
  cases r with
  | ok body s =>
    cases r' with
    | ok body' s' => exact .inl ⟨_, _, rfl, rfl, congrArg Program.mk hblind.1⟩
    | error e' s' => exact hblind.elim
  | error e s =>
    cases r' with
    | ok body' s' => exact hblind.elim
    | error e' s' => exact .inr ⟨e, e', rfl, rfl, hblind⟩

/-- A source is parsed by way of its tokens. -/
theorem parseSource_of_scan {source : String} {tokens : List Token} (h : scan source = .ok tokens) :
    parseSource source = (parse tokens).mapError .parse := by
  unfold parseSource
  rw [h]
  dsimp only
  cases parse tokens <;> rfl

/-- **Layout carries no meaning beyond its line ends.**  The tokens of a text, written one space
    apart, are a text with the same kinds, values and texts of tokens again; and from both texts the
    parser makes the same program, up to places, or it reports the same fault. -/
theorem spaced_same_program {source : String} {tokens : List Token}
    (h : scan source = .ok tokens) :
    ∃ tokens', scan (Token.spaced tokens) = .ok tokens' ∧
      tokens'.map Token.word = tokens.map Token.word ∧
      ((∃ p p', parseSource source = .ok p ∧ parseSource (Token.spaced tokens) = .ok p' ∧
          p.ranged = p'.ranged) ∨
        ∃ e e', parseSource source = .error (.parse e) ∧
          parseSource (Token.spaced tokens) = .error (.parse e') ∧ e.cause = e'.cause) := by
  obtain ⟨tokens', hspaced, hwords⟩ := exists_scan_spaced h
  refine ⟨tokens', hspaced, hwords, ?_⟩
  rw [parseSource_of_scan h, parseSource_of_scan hspaced]
  -- what is parsed depends on the words, and those are the same
  rcases parse_alike hwords.symm with ⟨p, p', hp, hp', hranged⟩ | ⟨e, e', he, he', hcause⟩
  · exact .inl ⟨p, p', by rw [hp]; rfl, by rw [hp']; rfl, hranged⟩
  · exact .inr ⟨e, e', by rw [he]; rfl, by rw [he']; rfl, hcause⟩

/-- A comment and a carriage return go; the line end inside the string stays. -/
theorem spaced_same_program_print : ∃ tokens tokens' p p',
    scan "let x=1//c\r\nprint(x,\"a\nb\")" = .ok tokens ∧
      Token.spaced tokens = "let x = 1 \n print ( x , \"a\nb\" ) " ∧
      scan (Token.spaced tokens) = .ok tokens' ∧
      tokens'.map Token.word = tokens.map Token.word ∧
      parseSource "let x=1//c\r\nprint(x,\"a\nb\")" = .ok p ∧
      parseSource (Token.spaced tokens) = .ok p' ∧ p.ranged = p'.ranged := by
  have hrun : (scan "let x=1//c\r\nprint(x,\"a\nb\")").toOption.map (fun tokens =>
      (Token.spaced tokens, (parse tokens).toOption.isSome))
      = some ("let x = 1 \n print ( x , \"a\nb\" ) ", true) := by
    decide +kernel
  cases hscan : scan "let x=1//c\r\nprint(x,\"a\nb\")" with
  | error e =>
    rw [hscan] at hrun
    exact nomatch hrun
  | ok tokens =>
    rw [hscan] at hrun
    obtain ⟨hspaced, hparses⟩ := Prod.mk.inj (Option.some.inj hrun)
    obtain ⟨tokens', htokens', hwords, hsame⟩ := spaced_same_program hscan
    rcases hsame with ⟨p, p', hp, hp', hranged⟩ | ⟨e, e', he, -⟩
    · exact ⟨tokens, tokens', p, p', rfl, hspaced, htokens', hwords, hp, hp', hranged⟩
    · -- the text is a program, so no error is left
      rw [parseSource_of_scan hscan] at he
      cases hparse : parse tokens with
      | ok p =>
        rw [hparse] at he
        exact nomatch he
      | error e =>
        rw [hparse] at hparses
        exact nomatch hparses

end Scriptlet
