/-
  The canonical derivation: the words of a layout derive the tree.

  1. **Nesting** — `Expr.inner` counts the levels that reading the layout of an expression opens
     inside the expression itself; `Expr.links` the operators or argument lists of the chain at its
     top.  A chain shares one level for its first link and opens one more for each further link, so
     the nesting of a tree is a matter of how its operators group, not of its height alone.
  2. **Parentheses are enough** (`Expr.Derives.operand`) — the layout puts them exactly where the
     operand would not be derived at the level that its place asks for.
  3. **The crux (`Stmt.derives`)** — the words of a well-formed tree derive its shape, opening as
     many levels as `Stmt.nesting` says.
-/
import Scriptlet.Proofs.Grammar.StatementCompleteness
import Scriptlet.Proofs.Layout.Words

namespace Scriptlet

open Grammar

variable {α : Type}

/-! ## Nesting -/

/-- Operators or argument lists of the chain at the top of an expression. -/
def Expr.links : Expr α → Nat
  | .operation _ op l _ => (if l.precedence = op.precedence then l.links else 0) + 1
  | .call _ f _ => (if f.precedence = .call then f.links else 0) + 1
  | _ => 0

/-- Links of the chain of level `p` at the top of an expression. -/
def Expr.linksAt (p : Precedence) (e : Expr α) : Nat := if e.precedence = p then e.links else 0

/-- The levels of an operand, in parentheses or not. -/
def operandNesting (parens : Bool) (levels : Nat) : Nat := if parens then levels + 1 else levels

mutual

/-- Levels of nesting inside the level of an expression. -/
def Expr.inner : Expr α → Nat
  | .literal _ _ | .name _ _ => 0
  | .unary _ _ e => operandNesting (e.precedence < .unary) e.inner + 1
  | .operation _ op l r =>
    max (operandNesting (l.precedence < op.precedence) l.inner)
      (l.linksAt op.precedence + operandNesting (r.precedence ≤ op.precedence) r.inner)
  | .assign _ _ e => e.inner + 1
  | .call _ f args =>
    max (operandNesting (f.precedence < .call) f.inner) (f.linksAt .call + Expr.deepest args)

/-- Levels of the deepest of several expressions. -/
def Expr.deepest : List (Expr α) → Nat
  | [] => 0
  | e :: es => max (e.inner + 1) (Expr.deepest es)

end

/-- Levels of nesting of an expression. -/
def Expr.nesting (e : Expr α) : Nat := e.inner + 1

/-- Levels of an expression that may be missing. -/
def Expr.nesting? : Option (Expr α) → Nat
  | none => 0
  | some e => e.nesting

/-- An `else if` is one level deeper than the conditional before it. -/
def Stmt.branchLevel : Stmt α → Nat
  | .cond _ _ _ _ => 1
  | _ => 0

mutual

/-- Levels of nesting of a statement. -/
def Stmt.nesting : Stmt α → Nat
  | .expr _ e => e.nesting
  | .declare _ _ e => Expr.nesting? e
  | .print _ args => Expr.deepest args
  | .block _ body => Stmt.deepest body + 1
  | .cond _ c t none => max c.nesting (Stmt.deepest t + 1)
  | .cond _ c t (some branch) =>
    max (max c.nesting (Stmt.deepest t + 1)) (branch.nesting + branch.branchLevel)
  | .loop _ c body => max c.nesting (Stmt.deepest body + 1)
  | .function _ _ _ body => Stmt.deepest body + 1
  | .ret _ e => Expr.nesting? e
  | .breakLoop _ | .continueLoop _ => 0

/-- Levels of the deepest of several statements. -/
def Stmt.deepest : List (Stmt α) → Nat
  | [] => 0
  | s :: rest => max s.nesting (Stmt.deepest rest)

end

/-- Levels of nesting that reading the layout of a program opens. -/
def Program.nesting (p : Program α) : Nat := Stmt.deepest p.statements

/-! ## Levels of precedence -/

/-- The rank tells a level from the others. -/
theorem Precedence.eq_of_rank_eq {p q : Precedence} (h : p.rank = q.rank) : p = q := by
  cases p <;> cases q <;> first | rfl | exact absurd h (by decide)

theorem Operator.or_le_precedence (op : Operator) : .or ≤ op.precedence := (operatorAt op).or_le

/-- Every operator binds weaker than a call. -/
theorem Operator.precedence_lt_call (op : Operator) : op.precedence < .call :=
  Nat.lt_trans (operatorAt op).lt_unary (by decide)

namespace Grammar

variable {p q : Precedence} {m k : Nat} {ws : List Word} {e : Expr Unit}

/-- An expression of a level is one of every looser level, with no link there. -/
theorem Level.loosen (h : Level q m k ws e) (hor : .or ≤ p) (hpq : p < q) :
    Level p 0 k ws e := by
  replace hor : Precedence.or.rank ≤ p.rank := hor
  replace hpq : p.rank < q.rank := hpq
  generalize hd : q.rank - p.rank = d
  induction d generalizing p with
  | zero => omega
  | succ d ih =>
    have hcall : p.rank < 8 := Nat.lt_of_lt_of_le hpq q.rank_le_call
    have hoperand := operandAt_tighter hor hcall
    have htight := hoperand.rank_eq
    rcases Nat.lt_or_ge p.tighter.rank q.rank with hlt | hge
    · exact .tighter hoperand (ih (by omega) hlt (by omega))
    · have heq : p.tighter = q := Precedence.eq_of_rank_eq (by omega)
      subst heq
      exact .tighter hoperand h

/-- An expression in parentheses, on any level of operators. -/
theorem Level.parenthesized (h : Expression k ws e) (hor : .or ≤ p) :
    Level p 0 k (parenthesizedWords true ws) e := by
  have hcall : Level .call 0 k (parenthesizedWords true ws) e := by
    have := Level.parens (.ofSymbol .leftParen) (.ofSymbol .rightParen) [] [] rfl newlines_nil h
      newlines_nil rfl
    simpa only [parenthesizedWords, if_true, List.append_nil, List.nil_append,
      List.cons_append] using this
  by_cases hp : p = .call
  · rw [hp]
    exact hcall
  · refine hcall.loosen hor ?_
    have := p.rank_le_call
    have hne : p.rank ≠ 8 := fun h => hp (Precedence.eq_of_rank_eq h)
    show p.rank < 8
    omega

end Grammar

/-- Whether an expression is no assignment, so that it is derived as a level. -/
def Expr.isLevel : Expr α → Bool
  | .assign _ _ _ => false
  | _ => true

/-- What binds at least as tightly as some operator is no assignment. -/
theorem Expr.isLevel_of_precedence {e : Expr α} {p : Precedence} (hp : .or ≤ p)
    (h : p ≤ e.precedence) : e.isLevel = true := by
  cases e with
  | assign _ _ _ =>
    have hp : 1 ≤ p.rank := hp
    have h : p.rank ≤ 0 := h
    omega
  | _ => rfl

theorem Expr.or_le_precedence {e : Expr α} (h : e.isLevel = true) : .or ≤ e.precedence := by
  match e with
  | .literal _ v =>
    show Precedence.or ≤ (if v.isNegative then .unary else .call)
    split <;> decide
  | .name _ _ => exact (by decide : Precedence.or ≤ .call)
  | .unary _ _ _ => exact (by decide : Precedence.or ≤ .unary)
  | .call _ _ _ => exact (by decide : Precedence.or ≤ .call)
  | .operation _ op _ _ => exact op.or_le_precedence
  | .assign _ _ _ => exact absurd h (by simp [Expr.isLevel])

/-! ## Operands -/

theorem Word.atom?_ofLiteral (v : Literal) : (Word.ofLiteral v).atom? = some (.literal () v) := by
  match v with
  | .nil | .bool true | .bool false | .integer _ | .float _ | .str _ => rfl

/-- A literal that can be written has no sign. -/
theorem Literal.isNegative_of_isWritable {v : Literal} (h : v.isWritable = true) :
    v.isNegative = false := by
  match v with
  | .nil | .bool _ | .str _ => rfl
  | .integer n =>
    have hn : 0 ≤ n.toInt := of_decide_eq_true h
    refine decide_eq_false fun hlt => ?_
    have hlt : n.toInt < 0 := Int64.lt_iff_toInt_lt.mp hlt
    omega
  | .float x =>
    have hx : x.isFinite = true ∧ (!x.isNegative) = true := (Bool.and_eq_true _ _).mp h
    exact (Bool.not_eq_true' _).mp hx.2

/-- What is to be derived for an expression: a level, unless it is an assignment, and in any case an
    expression. -/
structure Expr.Derives (e : Expr α) : Prop where
  level : e.isLevel = true → Level e.precedence e.links e.inner e.words e.shape
  expression : Expression e.nesting e.words e.shape

/-- An expression that is no assignment is derived from its level. -/
theorem Expr.Derives.of_level {e : Expr α} (hlevel : e.isLevel = true)
    (h : Level e.precedence e.links e.inner e.words e.shape) : e.Derives := by
  refine ⟨fun _ => h, ?_⟩
  have hor : Precedence.or.rank ≤ e.precedence.rank := Expr.or_le_precedence hlevel
  rcases Nat.lt_or_ge Precedence.or.rank e.precedence.rank with hlt | hge
  · exact .operand (h.loosen (Nat.le_refl _) hlt)
  · have heq : e.precedence = .or := Precedence.eq_of_rank_eq (by omega)
    rw [heq] at h
    exact .operand h

/-- **Parentheses are enough**: an operand is derived on the level `p` if it is in parentheses or
    binds at least as tightly. -/
theorem Expr.Derives.operand {e : Expr α} (h : e.Derives) {p : Precedence} (hp : .or ≤ p)
    (parens : Bool) (hparens : parens = false → p ≤ e.precedence)
    (hlinks : parens = true → e.precedence ≠ p) :
    Level p (e.linksAt p) (operandNesting parens e.inner) (parenthesizedWords parens e.words)
      e.shape := by
  cases parens with
  | true =>
    have hzero : e.linksAt p = 0 := if_neg (hlinks rfl)
    rw [hzero]
    exact .parenthesized h.expression hp
  | false =>
    have hle : p.rank ≤ e.precedence.rank := hparens rfl
    have hlevel := h.level (Expr.isLevel_of_precedence hp (hparens rfl))
    unfold Expr.linksAt
    by_cases heq : e.precedence = p
    · rw [if_pos heq, ← heq]
      exact hlevel
    · rw [if_neg heq]
      have hne : e.precedence.rank ≠ p.rank := fun h => heq (Precedence.eq_of_rank_eq h)
      exact hlevel.loosen hp (show p.rank < e.precedence.rank by omega)

/-! ## Lists in parentheses -/

section Items

variable {β γ : Type} {Item : Nat → List Word → γ → Prop}
variable {levels : β → Nat} {words : β → List Word} {f : β → γ}

/-- Items that are all derived, with commas between them. -/
theorem commaList_of_items {x : β} {xs : List β}
    (h : ∀ y ∈ x :: xs, Item (levels y) (words y) (f y)) :
    CommaList Item (((x :: xs).map levels).foldr max 0) (commaWords ((x :: xs).map words))
      ((x :: xs).map f) := by
  have hx := h x (List.mem_cons_self ..)
  induction xs generalizing x with
  | nil =>
    have hmax : ([x].map levels).foldr max 0 = levels x := Nat.max_eq_left (Nat.zero_le _)
    have hwords : commaWords ([x].map words) = words x := by
      simp [commaWords, List.intercalate]
    rw [hmax, hwords]
    exact .one hx
  | cons y ys ih =>
    have hothers := ih (fun z hz => h z (List.mem_cons_of_mem x hz))
      (h y (List.mem_cons_of_mem x (List.mem_cons_self ..)))
    have hmore := CommaList.more (.ofSymbol .comma) [] [] hx newlines_nil rfl newlines_nil hothers
    rw [List.map_cons (f := words), commaWords_cons _ _ (by simp)]
    simp only [List.append_nil, List.append_assoc, List.cons_append, List.nil_append] at hmore
    exact hmore

/-- Items that are all derived, up to the closing parenthesis. -/
theorem enclosed_of_items {xs : List β} (h : ∀ y ∈ xs, Item (levels y) (words y) (f y)) :
    Enclosed Item ((xs.map levels).foldr max 0) (closedWords (xs.map words)) (xs.map f) := by
  cases xs with
  | nil => exact .none [] (.ofSymbol .rightParen) newlines_nil rfl
  | cons x xs =>
    have hall := Enclosed.some [] [] (.ofSymbol .rightParen) newlines_nil
      (commaList_of_items h) newlines_nil rfl
    simpa only [closedWords, List.nil_append, List.append_nil] using hall

end Items

/-- The deepest of several expressions, as a maximum. -/
theorem Expr.deepest_eq_foldr (es : List (Expr α)) :
    Expr.deepest es = (es.map Expr.nesting).foldr max 0 := by
  induction es with
  | nil => rfl
  | cons e es ih => rw [Expr.deepest, ih, List.map_cons, List.foldr_cons, Expr.nesting]

/-- The arguments of a call, each derived as an expression. -/
theorem enclosed_of_derives {es : List (Expr α)} (h : ∀ e ∈ es, Expr.Derives e) :
    Enclosed Expression (Expr.deepest es) (closedWords (Expr.listWords es)) (Expr.shapes es) := by
  rw [Expr.deepest_eq_foldr, Expr.listWords_eq_map, Expr.shapes_eq_map]
  exact enclosed_of_items fun e he => (h e he).expression

/-- Parameters are names, so they open no level. -/
theorem enclosed_parameters (params : List String) :
    Enclosed Parameter 0 (closedWords (params.map fun x => [.ofName x])) params := by
  have hzero : (params.map fun _ => 0).foldr max 0 = 0 := by
    induction params with
    | nil => rfl
    | cons x xs ih => rw [List.map_cons, List.foldr_cons, ih]; rfl
  have hnames : ∀ x ∈ params, Parameter 0 [.ofName x] x :=
    fun x _ => ⟨rfl, .ofName x, rfl, rfl, rfl⟩
  have henclosed := enclosed_of_items (f := id) hnames
  rwa [hzero, List.map_id] at henclosed

/-! ## Expressions -/

mutual

/-- **The words of a well-formed expression derive it.** -/
theorem Expr.derives (e : Expr α) (h : e.wellFormed = true) : e.Derives := by
  match e with
  | .literal _ v =>
    refine .of_level rfl ?_
    -- only a negative literal binds less tightly, and those cannot be written
    have hprec : (Expr.literal () v).precedence = .call :=
      if_neg (by rw [Literal.isNegative_of_isWritable h]; decide)
    show Level (Expr.literal () v).precedence 0 0 [.ofLiteral v] (.literal () v)
    rw [hprec]
    exact .atom (Word.atom?_ofLiteral v)
  | .name _ x => exact .of_level rfl (.atom rfl)
  | .unary _ op e =>
    refine .of_level rfl ?_
    have hoperand := (Expr.derives e h).operand (p := .unary) (by decide)
      (decide (e.precedence < .unary)) (fun hlt => Nat.le_of_not_lt (of_decide_eq_false hlt))
      (fun hlt heq => by
        have hlt := of_decide_eq_true hlt
        rw [heq] at hlt
        exact absurd hlt (by decide))
    exact .unary (unaryAt_iff.mpr rfl) (.ofSymbol op.symbol) rfl hoperand
  | .operation _ op l r =>
    obtain ⟨hl, hr⟩ := (Bool.and_eq_true _ _).mp h
    refine .of_level rfl ?_
    have hleft := (Expr.derives l hl).operand (Operator.or_le_precedence op)
      (decide (l.precedence < op.precedence))
      (fun hlt => Nat.le_of_not_lt (of_decide_eq_false hlt))
      (fun hlt heq => absurd (of_decide_eq_true hlt) (heq ▸ Nat.lt_irrefl _))
    -- operators group to the left, so on the right the same level needs parentheses too
    have hplace := operandAt_tighter op.or_le_precedence op.precedence_lt_call
    have htight := hplace.rank_eq
    have hright := (Expr.derives r hr).operand (p := op.precedence.tighter)
      (Nat.le_trans op.or_le_precedence (by omega)) (decide (r.precedence ≤ op.precedence))
      (fun hle => by
        have hlt : ¬r.precedence.rank ≤ op.precedence.rank := of_decide_eq_false hle
        show op.precedence.tighter.rank ≤ r.precedence.rank
        omega)
      (fun hle heq => by
        have hle : r.precedence.rank ≤ op.precedence.rank := of_decide_eq_true hle
        rw [heq] at hle
        omega)
    have hlink := Level.link (operatorAt op) hplace (.ofSymbol op.symbol) [] hleft rfl newlines_nil
      hright
    rw [List.append_assoc] at hlink
    exact hlink
  | .assign _ x e =>
    obtain ⟨hx, he⟩ := (Bool.and_eq_true _ _).mp h
    refine ⟨fun hlevel => absurd hlevel (by simp [Expr.isLevel]), ?_⟩
    exact .assign (.ofName x) (.ofSymbol .assign) [] rfl rfl newlines_nil
      (Expr.derives e he).expression
  | .call _ f args =>
    obtain ⟨hf, hargs⟩ := (Bool.and_eq_true _ _).mp h
    refine .of_level rfl ?_
    have hcallee := (Expr.derives f hf).operand (p := .call) (by decide)
      (decide (f.precedence < .call)) (fun hlt => Nat.le_of_not_lt (of_decide_eq_false hlt))
      (fun hlt heq => by
        have hlt := of_decide_eq_true hlt
        rw [heq] at hlt
        exact absurd hlt (by decide))
    exact .call (.ofSymbol .leftParen) hcallee rfl
      (enclosed_of_derives (Expr.derives_all args hargs))

theorem Expr.derives_all (es : List (Expr α)) (h : Expr.allWellFormed es = true) :
    ∀ e ∈ es, Expr.Derives e := by
  match es with
  | [] => exact fun e he => absurd he (by simp)
  | e :: es =>
    obtain ⟨he, hes⟩ := (Bool.and_eq_true _ _).mp h
    intro x hx
    rcases List.mem_cons.mp hx with heq | hx
    · rw [heq]
      exact Expr.derives e he
    · exact Expr.derives_all es hes x hx

end

/-! ## Statements -/

theorem separators_nil : Separators [] := fun _ hw => absurd hw List.not_mem_nil

theorem isSeparator_lineEnd : IsSeparator .lineEnd := .inl rfl

/-- A separator may be added in front. -/
theorem Grammar.Statements.separated {k : Nat} {w : Word} {ws : List Word}
    {body : List (Stmt Unit)} (hw : IsSeparator w) (h : Statements k ws body) :
    Statements k (w :: ws) body := by
  have hcons : ∀ gap, Separators gap → Separators (w :: gap) := by
    intro gap hgap v hv
    rcases List.mem_cons.mp hv with rfl | hv
    · exact hw
    · exact hgap v hv
  cases h with
  | none _ hgap => exact .none (w :: ws) (hcons ws hgap)
  | last gap hgap statement => exact .last (w :: gap) (hcons gap hgap) statement
  | more gap v hgap statement hv others =>
    exact .more (w :: gap) v (hcons gap hgap) statement hv others

/-- Statements in braces are a block, one level deeper. -/
theorem Grammar.Statements.braced {k : Nat} {ws : List Word} {body : List (Stmt Unit)}
    (h : Statements k ws body) : Block (k + 1) (bracedWords ws) body :=
  .braces (.ofSymbol .leftBrace) (.ofSymbol .rightBrace) rfl (h.separated isSeparator_lineEnd) rfl

/-- What is to be derived for a statement; a conditional may also follow an `else`. -/
structure Stmt.Derives (s : Stmt α) : Prop where
  statement : Statement s.nesting s.words s.shape
  conditional : s.branchLevel = 1 → Conditional s.nesting s.words s.shape

/-- A conditional is derived as one, and hence as a statement. -/
theorem Stmt.Derives.of_conditional {s : Stmt α} (h : Conditional s.nesting s.words s.shape) :
    s.Derives :=
  ⟨.cond h, fun _ => h⟩

/-- Any other statement is derived as a statement alone. -/
theorem Stmt.Derives.of_statement {s : Stmt α} (hlevel : s.branchLevel = 0)
    (h : Statement s.nesting s.words s.shape) : s.Derives :=
  ⟨h, fun hone => absurd (hlevel.symm.trans hone) (by decide)⟩

/-- A declaration is derived with its initial value, if there is one. -/
theorem statement_declare {x : String} {e : Option (Expr α)} (h : Expr.wellFormed? e = true) :
    Statement (Expr.nesting? e)
      (.ofKeyword .letKw :: .ofName x :: Expr.words? [.ofSymbol .assign] e)
      (.declare () x (Expr.shape? e)) := by
  cases e with
  | none => exact .declare (.ofKeyword .letKw) (.ofName x) rfl rfl
  | some e =>
    exact .declareAs (.ofKeyword .letKw) (.ofName x) (.ofSymbol .assign) [] rfl rfl rfl newlines_nil
      (Expr.derives e h).expression

/-- A return statement is derived with its value, if there is one. -/
theorem statement_return {e : Option (Expr α)} (h : Expr.wellFormed? e = true) :
    Statement (Expr.nesting? e) (.ofKeyword .returnKw :: Expr.words? [] e)
      (.ret () (Expr.shape? e)) := by
  cases e with
  | none => exact .ret (.ofKeyword .returnKw) rfl
  | some e => exact .retValue (.ofKeyword .returnKw) rfl (Expr.derives e h).expression

mutual

/-- **The words of a well-formed statement derive it.** -/
theorem Stmt.derives (s : Stmt α) (h : s.wellFormed = true) : s.Derives := by
  match s with
  | .expr _ e => exact .of_statement rfl (.expr (Expr.derives e h).expression)
  | .declare _ x e =>
    obtain ⟨hx, he⟩ := (Bool.and_eq_true _ _).mp h
    exact .of_statement rfl (statement_declare he)
  | .print _ args =>
    exact .of_statement rfl (.print (.ofKeyword .printKw) (.ofSymbol .leftParen) rfl rfl
      (enclosed_of_derives (Expr.derives_all args h)))
  | .block _ body =>
    exact .of_statement rfl (.block (Stmt.derives_lines body h).braced)
  | .cond _ c t none =>
    obtain ⟨hc, ht⟩ := (Bool.and_eq_true _ _).mp h
    exact .of_conditional (.plain (.ofKeyword .ifKw) rfl (Expr.derives c hc).expression
      (Stmt.derives_lines t ht).braced)
  | .cond _ c t (some branch) =>
    obtain ⟨⟨⟨hc, ht⟩, hbranch⟩, hb⟩ : ((c.wellFormed = true ∧ Stmt.allWellFormed t = true) ∧
        branch.isBranch = true) ∧ branch.wellFormed = true := by
      simpa only [Stmt.wellFormed, Bool.and_eq_true] using h
    have hcondition := (Expr.derives c hc).expression
    have hconsequent := (Stmt.derives_lines t ht).braced
    refine .of_conditional ?_
    match branch with
    | .block _ body =>
      have helse := Conditional.elseBlock (.ofKeyword .ifKw) (.ofKeyword .elseKw) [] rfl hcondition
        hconsequent newlines_nil rfl (Stmt.derives_lines body hb).braced
      rw [List.append_nil] at helse
      exact helse
    | .cond note c' t' b' =>
      have helse := Conditional.elseIf (.ofKeyword .ifKw) (.ofKeyword .elseKw) [] rfl hcondition
        hconsequent newlines_nil rfl ((Stmt.derives (.cond note c' t' b') hb).conditional rfl)
      rw [List.append_nil] at helse
      exact helse
  | .loop _ c body =>
    obtain ⟨hc, hbody⟩ := (Bool.and_eq_true _ _).mp h
    exact .of_statement rfl (.loop (.ofKeyword .whileKw) rfl (Expr.derives c hc).expression
      (Stmt.derives_lines body hbody).braced)
  | .function _ f params body =>
    obtain ⟨hnames, hbody⟩ := (Bool.and_eq_true _ _).mp h
    have hfunction := Statement.function (.ofKeyword .fnKw) (.ofName f) (.ofSymbol .leftParen) rfl
      rfl rfl (enclosed_parameters params) (Stmt.derives_lines body hbody).braced
    rw [Nat.max_eq_right (Nat.zero_le _)] at hfunction
    exact .of_statement rfl hfunction
  | .ret _ e => exact .of_statement rfl (statement_return h)
  | .breakLoop _ => exact .of_statement rfl (.breakLoop (.ofKeyword .breakKw) rfl)
  | .continueLoop _ => exact .of_statement rfl (.continueLoop (.ofKeyword .continueKw) rfl)

/-- **Statements are derived from their lines.** -/
theorem Stmt.derives_lines (body : List (Stmt α)) (h : Stmt.allWellFormed body = true) :
    Statements (Stmt.deepest body) (Stmt.lineWords body) (Stmt.shapes body) := by
  match body with
  | [] => exact .none [] separators_nil
  | s :: rest =>
    obtain ⟨hs, hrest⟩ := (Bool.and_eq_true _ _).mp h
    exact .more [] .lineEnd separators_nil (Stmt.derives s hs).statement isSeparator_lineEnd
      (Stmt.derives_lines rest hrest)

end

/-- **The words of a well-formed program spell its shape.** -/
theorem Program.spells (p : Program α) (h : p.wellFormed = true) :
    Spells p.nesting p.words p.shape :=
  Stmt.derives_lines p.statements ((Bool.and_eq_true _ _).mp h).2

end Scriptlet
