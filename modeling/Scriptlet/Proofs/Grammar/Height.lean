/-
  The height of a parsed tree, and what the nesting limit does and does not bound.

  1. **Height** (`Program.height`) — the most levels on a path from the root to a leaf.  A block, an
     `else if` and a unary operator are one level each.  A link of a chain, that is an operator or
     argument list whose left operand or callee is one of the same level, has the weight `w`.
  2. **What reading counts** — the nesting of a derivation counts a link only while the operands
     after it are read, not for the operands before it that the link wraps.  So the levels of an
     operand and the links around it are counted side by side, and only their maximum is bounded.
  3. **The bound** (`Grammar.Level.height_le`) — at `k` levels of nesting each of the seven kinds of
     chains has at most `k + 1` links, and whatever they wrap in parentheses has one level less to
     go.  By induction on the derivation, the levels that are no links stay within the limit, and
     the links within a number that grows with its square.
-/
import Mathlib.Tactic.Ring
import Scriptlet.Proofs.Layout.Stability

namespace Scriptlet

open Grammar

variable {α : Type} {w : Nat}

/-! ## Height -/

/-- Whether an expression continues a chain of level `p` when it is the left operand or callee. -/
def Expr.continues (p : Precedence) : Expr α → Bool
  | .operation _ op _ _ => op.precedence = p
  | .call _ _ _ => p = .call
  | _ => false

/-- The levels that a link of weight `w` adds to its left operand. -/
def Expr.linkLevels (w : Nat) (p : Precedence) (left : Expr α) : Nat :=
  if left.continues p then w else 0

mutual

/-- The most levels on a path from the root of an expression to a leaf. -/
def Expr.height (w : Nat) : Expr α → Nat
  | .literal _ _ | .name _ _ => 0
  | .unary _ _ e => e.height w + 1
  | .operation _ op l r => max (l.height w + l.linkLevels w op.precedence) (r.height w)
  | .assign _ _ e => e.height w
  | .call _ f args => max (f.height w + f.linkLevels w .call) (Expr.heights w args)

/-- The most levels in any of several expressions. -/
def Expr.heights (w : Nat) : List (Expr α) → Nat
  | [] => 0
  | e :: es => max (e.height w) (Expr.heights w es)

end

/-- The levels of an expression that may be missing. -/
def Expr.height? (w : Nat) : Option (Expr α) → Nat
  | none => 0
  | some e => e.height w

mutual

/-- The most levels on a path from a statement to a leaf. -/
def Stmt.height (w : Nat) : Stmt α → Nat
  | .expr _ e => e.height w
  | .declare _ _ e => Expr.height? w e
  | .print _ args => Expr.heights w args
  | .block _ body => Stmt.heights w body + 1
  | .cond _ c t none => max (c.height w) (Stmt.heights w t + 1)
  | .cond _ c t (some branch) =>
    max (max (c.height w) (Stmt.heights w t + 1)) (branch.height w + branch.branchLevel)
  | .loop _ c body => max (c.height w) (Stmt.heights w body + 1)
  | .function _ _ _ body => Stmt.heights w body + 1
  | .ret _ e => Expr.height? w e
  | .breakLoop _ | .continueLoop _ => 0

/-- The most levels in any of several statements. -/
def Stmt.heights (w : Nat) : List (Stmt α) → Nat
  | [] => 0
  | s :: rest => max (s.height w) (Stmt.heights w rest)

end

/-- The most levels on a path through a program. -/
def Program.height (w : Nat) (p : Program α) : Nat := Stmt.heights w p.statements

/-- A link weighs `w` or nothing. -/
theorem Expr.linkLevels_le (p : Precedence) (left : Expr α) : left.linkLevels w p ≤ w := by
  unfold Expr.linkLevels
  split <;> omega

/-! ## The height of a shape -/

/-- Whether a node is a link is up to its shape. -/
theorem Expr.linkLevels_shape (p : Precedence) (e : Expr α) :
    e.shape.linkLevels w p = e.linkLevels w p := by
  cases e <;> rfl

theorem Stmt.branchLevel_shape (s : Stmt α) : s.shape.branchLevel = s.branchLevel := by
  match s with
  | .cond _ _ _ none | .cond _ _ _ (some _) => simp only [Stmt.shape, Stmt.branchLevel]
  | .expr _ _ | .declare _ _ _ | .print _ _ | .block _ _ | .loop _ _ _ | .function _ _ _ _
  | .ret _ _ | .breakLoop _ | .continueLoop _ => simp only [Stmt.shape, Stmt.branchLevel]

mutual

/-- The height of an expression is that of its shape. -/
theorem Expr.height_shape (e : Expr α) : e.shape.height w = e.height w := by
  match e with
  | .literal _ _ | .name _ _ => simp only [Expr.shape, Expr.height]
  | .unary _ op e =>
    simp only [Expr.shape, Expr.height]
    rw [Expr.height_shape e]
  | .operation _ op l r =>
    simp only [Expr.shape, Expr.height, Expr.linkLevels_shape]
    rw [Expr.height_shape l, Expr.height_shape r]
  | .assign _ x e =>
    simp only [Expr.shape, Expr.height]
    rw [Expr.height_shape e]
  | .call _ f args =>
    simp only [Expr.shape, Expr.height, Expr.linkLevels_shape]
    rw [Expr.height_shape f, Expr.heights_shapes args]

/-- So it is for a list of them. -/
theorem Expr.heights_shapes (es : List (Expr α)) :
    Expr.heights w (Expr.shapes es) = Expr.heights w es := by
  match es with
  | [] => rfl
  | e :: es => rw [Expr.shapes, Expr.heights, Expr.heights, Expr.height_shape e,
      Expr.heights_shapes es]

end

theorem Expr.height?_shape (e : Option (Expr α)) :
    Expr.height? w (Expr.shape? e) = Expr.height? w e := by
  cases e with
  | none => rfl
  | some e => exact e.height_shape

mutual

/-- The height of a statement is that of its shape. -/
theorem Stmt.height_shape (s : Stmt α) : s.shape.height w = s.height w := by
  match s with
  | .expr _ e => simp only [Stmt.shape, Stmt.height, Expr.height_shape]
  | .declare _ x e => simp only [Stmt.shape, Stmt.height, Expr.height?_shape]
  | .print _ args => simp only [Stmt.shape, Stmt.height, Expr.heights_shapes]
  | .block _ body =>
    simp only [Stmt.shape, Stmt.height]
    rw [Stmt.heights_shapes body]
  | .cond _ c t none =>
    simp only [Stmt.shape, Stmt.height, Expr.height_shape]
    rw [Stmt.heights_shapes t]
  -- what a branch adds is up to its shape
  | .cond _ c t (some branch) =>
    simp only [Stmt.shape, Stmt.height, Expr.height_shape, Stmt.branchLevel_shape]
    rw [Stmt.heights_shapes t, Stmt.height_shape branch]
  | .loop _ c body =>
    simp only [Stmt.shape, Stmt.height, Expr.height_shape]
    rw [Stmt.heights_shapes body]
  | .function _ f params body =>
    simp only [Stmt.shape, Stmt.height]
    rw [Stmt.heights_shapes body]
  | .ret _ e => simp only [Stmt.shape, Stmt.height, Expr.height?_shape]
  | .breakLoop _ | .continueLoop _ => simp only [Stmt.shape, Stmt.height]

theorem Stmt.heights_shapes (body : List (Stmt α)) :
    Stmt.heights w (Stmt.shapes body) = Stmt.heights w body := by
  match body with
  | [] => rfl
  | s :: rest => rw [Stmt.shapes, Stmt.heights, Stmt.heights, Stmt.height_shape s,
      Stmt.heights_shapes rest]

end

/-! ## The room that the nesting leaves -/

/-- The most levels of a construct that opens `k` levels of nesting: one for each of them, and at
    each up to `k` links of weight `w` in every kind of chain. -/
def room (w : Nat) : Nat → Nat
  | 0 => 0
  | k + 1 => room w k + 7 * (w * (k + 1)) + 1

/-- More nesting leaves more room. -/
theorem room_mono {k k' : Nat} (h : k ≤ k') : room w k ≤ room w k' := by
  induction h with
  | refl => exact Nat.le_refl _
  | step _ ih =>
    rw [room]
    omega

/-- The room in closed form: it grows with the square of the nesting. -/
theorem room_eq (w k : Nat) : room w k = k + 7 * (k * (k + 1) / 2) * w := by
  induction k with
  | zero => simp [room]
  | succ k ih =>
    have hnext : (k + 1) * (k + 1 + 1) / 2 = k * (k + 1) / 2 + (k + 1) := by
      have hprod : (k + 1) * (k + 1 + 1) = k * (k + 1) + (k + 1) * 2 := by ring
      rw [hprod, Nat.add_mul_div_right _ _ (by decide)]
    rw [room, ih, hnext]
    ring

/-- Kinds of chains that an operand of a chain of level `p` may hold outside of parentheses. -/
def Precedence.chainsInside : Precedence → Nat
  | .assignment => 7
  | .or => 6
  | .and => 5
  | .equality => 4
  | .comparison => 3
  | .term => 2
  | .factor | .unary => 1
  | .call => 0

/-- The most levels of a chain of level `p` with `m` links that opens `k` levels of nesting. -/
def chainRoom (w : Nat) (p : Precedence) (m k : Nat) : Nat :=
  room w k + p.chainsInside * (w * (k + 1)) + w * m

/-- More links and more nesting leave more room. -/
theorem chainRoom_mono {p : Precedence} {m m' k k' : Nat} (hm : m ≤ m') (hk : k ≤ k') :
    chainRoom w p m k ≤ chainRoom w p m' k' := by
  have hroom := room_mono (w := w) hk
  have hlinks : w * m ≤ w * m' := Nat.mul_le_mul_left w hm
  have hinside : p.chainsInside * (w * (k + 1)) ≤ p.chainsInside * (w * (k' + 1)) :=
    Nat.mul_le_mul_left _ (Nat.mul_le_mul_left w (by omega))
  unfold chainRoom
  omega

/-- One link more weighs `w` more. -/
theorem chainRoom_succ (w : Nat) (p : Precedence) (m k : Nat) :
    chainRoom w p (m + 1) k = chainRoom w p m k + w := by
  unfold chainRoom
  rw [Nat.mul_succ w m]
  omega

/-- An operand leaves room for the links of the chain around it. -/
theorem chainRoom_operand {p q : Precedence} (hq : OperandAt p q) {m k : Nat} (hm : m ≤ k + 1)
    (hunary : q = .unary → m = 0) : chainRoom w q m k ≤ chainRoom w p 0 k := by
  have hlinks : w * m ≤ w * (k + 1) := Nat.mul_le_mul_left w hm
  unfold chainRoom
  cases hq with
  | factor =>
    rw [hunary rfl]
    simp only [Precedence.chainsInside]
    omega
  | _ =>
    simp only [Precedence.chainsInside]
    omega

/-! ## Derivations -/

namespace Grammar

/-- A token by itself is a leaf. -/
theorem height_atom {x : Word} {e : Expr Unit} (h : x.atom? = some e) : e.height w = 0 := by
  obtain ⟨kind, text⟩ := x
  match kind with
  | .integer _ | .float _ | .str _ | .identifier => rw [← Option.some.inj h, Expr.height]
  | .keyword k =>
    cases k with
    | trueKw | falseKw | nilKw => rw [← Option.some.inj h, Expr.height]
    | _ => exact nomatch h
  | .symbol _ | .newline | .eof => exact nomatch h

/-- A chain has at most one link more than levels of nesting; there are no chains of unary
    operators. -/
theorem Level.links_le {p : Precedence} {m k : Nat} {ws : List Word} {e : Expr Unit}
    (h : Level p m k ws e) : m ≤ k + 1 ∧ (p = .unary → m = 0) := by
  cases h with
  | tighter | unary | atom | parens => exact ⟨Nat.zero_le _, fun _ => rfl⟩
  | link hop hq o gap left ho hgap right =>
    refine ⟨by omega, fun hp => ?_⟩
    rw [hp] at hop
    exact absurd hop.lt_unary (by decide)
  | call o callee ho arguments => exact ⟨by omega, by nofun⟩

mutual

/-- An expression: what is assigned has one level less to go. -/
theorem Expression.height_le (w : Nat) {k : Nat} {ws : List Word} {e : Expr Unit} :
    Expression k ws e → e.height w ≤ room w k
  | .assign x eq gap _ _ _ value => by
    have hvalue := value.height_le w
    rw [room, Expr.height]
    omega
  | .operand operand => by
    have hoperand := operand.height_le w
    have hlinks := Nat.mul_le_mul_left w operand.links_le.1
    unfold chainRoom at hoperand
    simp only [Precedence.chainsInside] at hoperand
    rw [room]
    omega

/-- **The levels of a chain**: those of its operands, and its links around them. -/
theorem Level.height_le (w : Nat) {p : Precedence} {m k : Nat} {ws : List Word} {e : Expr Unit} :
    Level p m k ws e → e.height w ≤ chainRoom w p m k
  | .tighter hq inner => by
    -- an operand one level up has the room of this level
    have hinner := inner.height_le w
    obtain ⟨hm, hunary⟩ := inner.links_le
    exact Nat.le_trans hinner (chainRoom_operand hq hm hunary)
  | @Level.link _ _ _ op m k _ l _ k' _ _ hop hq o gap left _ _ right => by
    -- the left operand has one link less
    have hleft := Nat.le_trans (left.height_le w)
      (chainRoom_mono (Nat.le_refl m) (Nat.le_max_left k (m + k')))
    -- the link itself adds no more than its weight
    have hlink : l.linkLevels w op.precedence ≤ w := l.linkLevels_le op.precedence
    obtain ⟨hm, hunary⟩ := right.links_le
    -- the right operand starts a chain of its own
    have hright := Nat.le_trans (right.height_le w) (chainRoom_operand hq hm hunary)
    have hright := Nat.le_trans hright
      (chainRoom_mono (Nat.zero_le (m + 1)) (show k' ≤ max k (m + k') by omega))
    rw [chainRoom_succ] at hright ⊢
    rw [Expr.height]
    omega
  | @Level.unary _ op _ k _ _ _ o _ operand => by
    have hoperand := operand.height_le w
    rw [operand.links_le.2 rfl] at hoperand
    -- a sign makes a level
    have hroom : chainRoom w .unary 0 k + 1 ≤ chainRoom w .unary 0 (k + 1) := by
      simp only [chainRoom, room, Precedence.chainsInside, Nat.mul_succ]
      omega
    rw [Expr.height]
    omega
  | @Level.call m k _ f k' _ _ o callee _ arguments => by
    have hcallee := Nat.le_trans (callee.height_le w)
      (chainRoom_mono (Nat.le_refl m) (Nat.le_max_left k (m + k')))
    have hlink : f.linkLevels w .call ≤ w := f.linkLevels_le .call
    -- arguments are whole expressions
    have harguments := Nat.le_trans (enclosed_height_le w arguments)
      (room_mono (show k' ≤ max k (m + k') by omega))
    have hroom : room w (max k (m + k')) ≤ chainRoom w .call m (max k (m + k')) := by
      unfold chainRoom
      omega
    rw [chainRoom_succ, Expr.height]
    omega
  | .atom hw => by
    rw [height_atom hw]
    exact Nat.zero_le _
  | .parens o c gap gap' _ _ inner _ _ => by
    have hinner := inner.height_le w
    -- inside of parentheses stands a whole expression, which has room
    unfold chainRoom
    omega

/-- Arguments are expressions one level deeper. -/
theorem enclosed_height_le (w : Nat) {k : Nat} {ws : List Word} {es : List (Expr Unit)} :
    Enclosed Expression k ws es → Expr.heights w es ≤ room w k
  | .none gap close _ _ => Nat.zero_le _
  | .some gap gap' close _ items _ _ => commaList_height_le w items

/-- The highest argument decides. -/
theorem commaList_height_le (w : Nat) {k : Nat} {ws : List Word} {es : List (Expr Unit)} :
    CommaList Expression k ws es → Expr.heights w es ≤ room w k
  | .one item => by
    have hitem := item.height_le w
    simp only [Expr.heights]
    omega
  | @CommaList.more _ _ k _ _ k' _ _ comma before after item _ _ _ others => by
    have hitem := Nat.le_trans (item.height_le w) (room_mono (Nat.le_max_left k k'))
    have hothers := Nat.le_trans (commaList_height_le w others)
      (room_mono (Nat.le_max_right k k'))
    rw [Expr.heights]
    omega

end

/-- An `else if` is a level of its own. -/
theorem Conditional.branchLevel_eq {k : Nat} {ws : List Word} {s : Stmt Unit}
    (h : Conditional k ws s) : s.branchLevel = 1 := by
  cases h <;> rfl

mutual

/-- A statement: bodies and branches are one level up from their parts. -/
theorem Statement.height_le (w : Nat) {k : Nat} {ws : List Word} {s : Stmt Unit} :
    Statement k ws s → s.height w ≤ room w k
  | .expr value => by
    rw [Stmt.height]
    exact value.height_le w
  | .declare _ _ _ _ => Nat.zero_le _
  | .declareAs _ _ _ _ _ _ _ _ value => by
    rw [Stmt.height]
    exact value.height_le w
  | .print _ _ _ _ arguments => by
    rw [Stmt.height]
    exact enclosed_height_le w arguments
  | .block block => by
    rw [Stmt.height]
    exact block.height_le w
  | .cond conditional => conditional.height_le w
  | @Statement.loop k _ _ k' _ _ _ _ condition block => by
    have hcondition := Nat.le_trans (condition.height_le w) (room_mono (Nat.le_max_left k k'))
    have hblock := Nat.le_trans (block.height_le w) (room_mono (Nat.le_max_right k k'))
    rw [Stmt.height]
    -- condition and body have room, each by itself
    omega
  | @Statement.function k _ _ k' _ _ _ _ _ _ _ _ _ block => by
    rw [Stmt.height]
    exact Nat.le_trans (block.height_le w) (room_mono (Nat.le_max_right k k'))
  | .ret _ _ => Nat.zero_le _
  | .retValue _ _ value => by
    rw [Stmt.height]
    exact value.height_le w
  | .breakLoop _ _ => Nat.zero_le _
  | .continueLoop _ _ => Nat.zero_le _

/-- A conditional: its branches are read one level deeper. -/
theorem Conditional.height_le (w : Nat) {k : Nat} {ws : List Word} {s : Stmt Unit} :
    Conditional k ws s → s.height w ≤ room w k
  | @Conditional.plain k _ _ k' _ _ _ _ condition consequent => by
    have hcondition := Nat.le_trans (condition.height_le w) (room_mono (Nat.le_max_left k k'))
    have hconsequent := Nat.le_trans (consequent.height_le w) (room_mono (Nat.le_max_right k k'))
    rw [Stmt.height]
    omega
  | @Conditional.elseBlock k _ _ k' _ _ k'' _ _ _ _ _ _ condition consequent _ _ alternative => by
    -- each of the parts has the room of the whole
    have hcondition := Nat.le_trans (condition.height_le w)
      (room_mono (show k ≤ max (max k k') k'' by omega))
    have hconsequent := Nat.le_trans (consequent.height_le w)
      (room_mono (show k' ≤ max (max k k') k'' by omega))
    have halternative := Nat.le_trans (alternative.height_le w)
      (room_mono (show k'' ≤ max (max k k') k'' by omega))
    simp only [Stmt.height, Stmt.branchLevel]
    omega
  | @Conditional.elseIf k _ _ k' _ _ k'' _ _ _ _ _ _ condition consequent _ _ alternative => by
    have hcondition := Nat.le_trans (condition.height_le w)
      (room_mono (show k ≤ max (max k k') (k'' + 1) by omega))
    have hconsequent := Nat.le_trans (consequent.height_le w)
      (room_mono (show k' ≤ max (max k k') (k'' + 1) by omega))
    have halternative := alternative.height_le w
    -- another conditional is a level up
    have hlevel : room w k'' + 1 ≤ room w (k'' + 1) := by
      rw [room]
      omega
    have hroom := room_mono (w := w) (show k'' + 1 ≤ max (max k k') (k'' + 1) by omega)
    rw [Stmt.height, alternative.branchLevel_eq]
    omega

/-- The levels of a block, with the one for entering it. -/
theorem Block.height_le (w : Nat) {k : Nat} {ws : List Word} {body : List (Stmt Unit)} :
    Block k ws body → Stmt.heights w body + 1 ≤ room w k
  | .braces _ _ _ statements _ => by
    have hstatements := statements.height_le w
    rw [room]
    omega

/-- The highest statement decides. -/
theorem Statements.height_le (w : Nat) {k : Nat} {ws : List Word} {body : List (Stmt Unit)} :
    Statements k ws body → Stmt.heights w body ≤ room w k
  | .none _ _ => Nat.zero_le _
  | .last _ _ statement => by
    have hstatement := statement.height_le w
    simp only [Stmt.heights]
    omega
  | @Statements.more k _ _ k' _ _ _ _ _ statement _ others => by
    have hstatement := Nat.le_trans (statement.height_le w) (room_mono (Nat.le_max_left k k'))
    have hothers := Nat.le_trans (others.height_le w) (room_mono (Nat.le_max_right k k'))
    rw [Stmt.heights]
    omega

end

end Grammar

/-! ## Accepted token lists -/

/-- **What the nesting limit bounds.**  On every path of an accepted program, the levels are at most
    the limit when links count nothing (`w = 0`), and when they count `w` each, at most the limit
    and `w` for each of seven kinds of chains, at each level as many as are left. -/
theorem parse_height_le {tokens : List Token} {p : Program Origin} (h : parse tokens = .ok p)
    (w : Nat) :
    p.height w ≤ maxNesting + 7 * (maxNesting * (maxNesting + 1) / 2) * w := by
  obtain ⟨⟨k, hk, hspells⟩, -⟩ := parse_sound h
  have hshape : Stmt.heights w (Stmt.shapes p.statements) ≤ room w k := hspells.height_le w
  rw [Stmt.heights_shapes] at hshape
  calc p.height w ≤ room w k := hshape
    _ ≤ room w maxNesting := room_mono hk
    _ = _ := room_eq w maxNesting

/-- Two calls and a sign: `-f(x)(y)` has the level of the sign and that of one link. -/
theorem parse_height_le_calls :
    ∃ tokens p, scan "-f(x)(y)" = .ok tokens ∧ parse tokens = .ok p ∧ p.height 1 = 2 ∧
      p.height 1 ≤ maxNesting + 7 * (maxNesting * (maxNesting + 1) / 2) * 1 := by
  have hrun : (parseSource "-f(x)(y)").toOption.map (Program.height 1) = some 2 := by
    decide +kernel
  cases hp : parseSource "-f(x)(y)" with
  | error e => rw [hp] at hrun; exact absurd hrun (by simp [Except.toOption])
  | ok p =>
    rw [hp] at hrun
    obtain ⟨tokens, hscan, hparse⟩ := parseSource_eq_ok.mp hp
    exact ⟨tokens, p, hscan, hparse, Option.some.inj hrun, parse_height_le hparse 1⟩

/-- A sum of four, the first under as many signs as the limit leaves room for. -/
def signedSum : String := String.ofList (List.replicate 99 '-') ++ "x + x + x + x"

/-- **Links around an operand are not counted with its own levels**: the signs of the first summand
    and the two links around it are more levels than the limit, and the sum is accepted. -/
theorem parse_height_signedSum :
    ∃ tokens p, scan signedSum = .ok tokens ∧ parse tokens = .ok p ∧
      p.height 1 = maxNesting + 1 := by
  have hrun : (parseSource signedSum).toOption.map (Program.height 1) = some 101 := by
    decide +kernel
  cases hp : parseSource signedSum with
  | error e => rw [hp] at hrun; exact absurd hrun (by simp [Except.toOption])
  | ok p =>
    rw [hp] at hrun
    obtain ⟨tokens, hscan, hparse⟩ := parseSource_eq_ok.mp hp
    exact ⟨tokens, p, hscan, hparse, Option.some.inj hrun⟩

end Scriptlet
