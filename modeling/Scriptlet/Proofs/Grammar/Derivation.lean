/-
  The grammar as derivations, independent of any way to find them.

      program     := statements
      statements  := sep* (statement (sep+ statement)*)? sep*
      statement   := let | fn | if | while | return | break | continue | print | block | expression
      expression  := name "=" expression | or
      or          := or "||" and | and
      and         := and "&&" equality | equality
      equality    := equality ("==" | "!=") comparison | comparison
      comparison  := comparison ("<" | "<=" | ">" | ">=") term | term
      term        := term ("+" | "-") factor | factor
      factor      := factor ("*" | "/" | "%") unary | unary
      unary       := ("!" | "-") unary | call
      call        := call "(" arguments ")" | literal | name | "(" expression ")"

  1. **Words** — the grammar sees the kind of a token and its text, not its place, and only the
     tokens before the first `eof`.
  2. **Newlines** — they separate statements, and besides may stand exactly where a rule has a
     `gap`: after an infix operator, after `=`, after `(`, around `,`, before `)`, and between the
     brace that closes an `if` and its `else`.
  3. **Nesting** — every derivation counts the levels of nesting `k` that reading it opens: one for
     each block, expression, unary operator and `else if`, and one for each operator or argument
     list of a chain beyond the first (`m` counts the links of a chain so far).
  4. **Levels** — which symbols are operators of a level (`OperatorAt`) and which level its operands
     are of (`OperandAt`) are tables of the grammar, written out here.  The tables of the parser and
     of the layout are shown to agree with them.
  5. **Parentheses** leave no node behind, so a tree has many derivations.
-/
import Scriptlet.Parse.Grammar
import Scriptlet.Proofs.Tree.Shape

namespace Scriptlet

/-! ## Words -/

/-- What the grammar sees of a token. -/
structure Word where
  kind : TokenKind
  text : String
  deriving DecidableEq

/-- A token without its place. -/
def Token.word (t : Token) : Word := ⟨t.kind, t.text⟩

/-- The words of a token list up to the first `eof`. -/
def Token.words (tokens : List Token) : List Word :=
  (tokens.takeWhile fun t => t.kind != .eof).map Token.word

/-- The expression that a single word is. -/
def Word.atom? (w : Word) : Option (Expr Unit) :=
  match w.kind with
  | .integer n => some (.literal () (.integer n))
  | .float x => some (.literal () (.float x))
  | .str s => some (.literal () (.str s))
  | .keyword .trueKw => some (.literal () (.bool true))
  | .keyword .falseKw => some (.literal () (.bool false))
  | .keyword .nilKw => some (.literal () .nil)
  | .identifier => some (.name () w.text)
  | _ => none

namespace Grammar

/-- Newlines only. -/
def Newlines (gap : List Word) : Prop := ∀ w ∈ gap, w.kind = .newline

theorem newlines_nil : Newlines [] := fun _ hw => absurd hw List.not_mem_nil

/-- A newline or a semicolon. -/
def IsSeparator (w : Word) : Prop := w.kind = .newline ∨ w.kind = .symbol .semicolon

/-- Newlines and semicolons only. -/
def Separators (gap : List Word) : Prop := ∀ w ∈ gap, IsSeparator w

/-! ## Lists in parentheses -/

section Lists

variable {β : Type} (Item : Nat → List Word → β → Prop)

/-- One or more items with commas between them. -/
inductive CommaList : Nat → List Word → List β → Prop
  | one {k ws x} (item : Item k ws x) : CommaList k ws [x]
  | more {k ws x k' ws' xs} (comma : Word) (before after : List Word) (item : Item k ws x)
      (hbefore : Newlines before) (hcomma : comma.kind = .symbol .comma) (hafter : Newlines after)
      (others : CommaList k' ws' xs) :
      CommaList (max k k') (ws ++ before ++ comma :: after ++ ws') (x :: xs)

/-- What follows an opening parenthesis: perhaps items, and the closing one. -/
inductive Enclosed : Nat → List Word → List β → Prop
  | none (gap : List Word) (close : Word) (hgap : Newlines gap)
      (hclose : close.kind = .symbol .rightParen) : Enclosed 0 (gap ++ [close]) []
  | some {k ws xs} (gap gap' : List Word) (close : Word) (hgap : Newlines gap)
      (items : CommaList Item k ws xs) (hgap' : Newlines gap')
      (hclose : close.kind = .symbol .rightParen) :
      Enclosed k (gap ++ ws ++ gap' ++ [close]) xs

end Lists

section Map

variable {β γ : Type} {Item : Nat → List Word → β → Prop} {Item' : Nat → List Word → γ → Prop}
variable {k : Nat} {ws : List Word} {xs : List β}

/-- Items that are related to other items one by one. -/
theorem CommaList.map {f : β → γ} (hf : ∀ k ws x, Item k ws x → Item' k ws (f x))
    (h : CommaList Item k ws xs) : CommaList Item' k ws (xs.map f) := by
  induction h with
  | one item => exact .one (hf _ _ _ item)
  | more comma before after item hbefore hcomma hafter _ ih =>
    exact .more comma before after (hf _ _ _ item) hbefore hcomma hafter ih

/-- What is read from every item may be mapped. -/
theorem Enclosed.map {f : β → γ} (hf : ∀ k ws x, Item k ws x → Item' k ws (f x))
    (h : Enclosed Item k ws xs) : Enclosed Item' k ws (xs.map f) := by
  cases h with
  | none gap close hgap hclose => exact .none gap close hgap hclose
  | some gap gap' close hgap items hgap' hclose =>
    exact .some gap gap' close hgap (items.map hf) hgap' hclose

end Map

/-! ## Levels -/

/-- The symbols that are infix operators of each level. -/
inductive OperatorAt : Precedence → Symbol → Operator → Prop
  | or : OperatorAt .or .orOr (.logical .or)
  | and : OperatorAt .and .andAnd (.logical .and)
  | equal : OperatorAt .equality .equalEqual (.binary (.equality .equal))
  | notEqual : OperatorAt .equality .bangEqual (.binary (.equality .notEqual))
  | less : OperatorAt .comparison .less (.binary (.comparison .less))
  | lessEqual : OperatorAt .comparison .lessEqual (.binary (.comparison .lessEqual))
  | greater : OperatorAt .comparison .greater (.binary (.comparison .greater))
  | greaterEqual : OperatorAt .comparison .greaterEqual (.binary (.comparison .greaterEqual))
  | add : OperatorAt .term .plus (.binary (.arithmetic .add))
  | subtract : OperatorAt .term .minus (.binary (.arithmetic .subtract))
  | multiply : OperatorAt .factor .star (.binary (.arithmetic .multiply))
  | divide : OperatorAt .factor .slash (.binary (.arithmetic .divide))
  | remainder : OperatorAt .factor .percent (.binary (.arithmetic .remainder))

/-- The level that the operands of each level are of. -/
inductive OperandAt : Precedence → Precedence → Prop
  | or : OperandAt .or .and
  | and : OperandAt .and .equality
  | equality : OperandAt .equality .comparison
  | comparison : OperandAt .comparison .term
  | term : OperandAt .term .factor
  | factor : OperandAt .factor .unary
  | unary : OperandAt .unary .call

/-- The symbols that are unary operators. -/
inductive UnaryAt : Symbol → UnaryOp → Prop
  | negate : UnaryAt .minus .negate
  | not : UnaryAt .bang .not

/-! ## Expressions -/

mutual

/-- An expression that opens `k` levels of nesting. -/
inductive Expression : Nat → List Word → Expr Unit → Prop
  | assign {k ws e} (x eq : Word) (gap : List Word) (hx : x.kind = .identifier)
      (heq : eq.kind = .symbol .assign) (hgap : Newlines gap) (value : Expression k ws e) :
      Expression (k + 1) (x :: eq :: gap ++ ws) (.assign () x.text e)
  | operand {m k ws e} (operand : Level .or m k ws e) : Expression (k + 1) ws e

/-- An expression of level `p`, a chain of `m` links at that level; chains grow to the left. -/
inductive Level : Precedence → Nat → Nat → List Word → Expr Unit → Prop
  | tighter {p q m k ws e} (hq : OperandAt p q) (inner : Level q m k ws e) : Level p 0 k ws e
  | link {p q x op m k ws l m' k' ws' r} (hop : OperatorAt p x op) (hq : OperandAt p q) (o : Word)
      (gap : List Word) (left : Level p m k ws l) (ho : o.kind = .symbol x) (hgap : Newlines gap)
      (right : Level q m' k' ws' r) :
      Level p (m + 1) (max k (m + k')) (ws ++ o :: gap ++ ws') (.operation () op l r)
  | unary {x op m k ws e} (hop : UnaryAt x op) (o : Word) (ho : o.kind = .symbol x)
      (operand : Level .unary m k ws e) : Level .unary 0 (k + 1) (o :: ws) (.unary () op e)
  | call {m k ws f k' ws' args} (o : Word) (callee : Level .call m k ws f)
      (ho : o.kind = .symbol .leftParen) (arguments : Enclosed Expression k' ws' args) :
      Level .call (m + 1) (max k (m + k')) (ws ++ o :: ws') (.call () f args)
  | atom {w e} (hw : w.atom? = some e) : Level .call 0 0 [w] e
  | parens {k ws e} (o c : Word) (gap gap' : List Word) (ho : o.kind = .symbol .leftParen)
      (hgap : Newlines gap) (inner : Expression k ws e) (hgap' : Newlines gap')
      (hc : c.kind = .symbol .rightParen) : Level .call 0 k (o :: gap ++ ws ++ gap' ++ [c]) e

end

/-! ## Statements -/

/-- The names between the parentheses of a definition. -/
def Parameter (k : Nat) (ws : List Word) (x : String) : Prop :=
  k = 0 ∧ ∃ w : Word, ws = [w] ∧ w.kind = .identifier ∧ w.text = x

mutual

/-- A statement that opens `k` levels of nesting. -/
inductive Statement : Nat → List Word → Stmt Unit → Prop
  | expr {k ws e} (value : Expression k ws e) : Statement k ws (.expr () e)
  | declare (w x : Word) (hw : w.kind = .keyword .letKw) (hx : x.kind = .identifier) :
      Statement 0 [w, x] (.declare () x.text none)
  | declareAs {k ws e} (w x eq : Word) (gap : List Word) (hw : w.kind = .keyword .letKw)
      (hx : x.kind = .identifier) (heq : eq.kind = .symbol .assign) (hgap : Newlines gap)
      (value : Expression k ws e) :
      Statement k (w :: x :: eq :: gap ++ ws) (.declare () x.text (some e))
  | print {k ws args} (w o : Word) (hw : w.kind = .keyword .printKw)
      (ho : o.kind = .symbol .leftParen) (arguments : Enclosed Expression k ws args) :
      Statement k (w :: o :: ws) (.print () args)
  | block {k ws body} (block : Block k ws body) : Statement k ws (.block () body)
  | cond {k ws s} (conditional : Conditional k ws s) : Statement k ws s
  | loop {k ws c k' ws' body} (w : Word) (hw : w.kind = .keyword .whileKw)
      (condition : Expression k ws c) (block : Block k' ws' body) :
      Statement (max k k') (w :: ws ++ ws') (.loop () c body)
  | function {k ws params k' ws' body} (w f o : Word) (hw : w.kind = .keyword .fnKw)
      (hf : f.kind = .identifier) (ho : o.kind = .symbol .leftParen)
      (parameters : Enclosed Parameter k ws params) (block : Block k' ws' body) :
      Statement (max k k') (w :: f :: o :: ws ++ ws') (.function () f.text params body)
  | ret (w : Word) (hw : w.kind = .keyword .returnKw) : Statement 0 [w] (.ret () none)
  | retValue {k ws e} (w : Word) (hw : w.kind = .keyword .returnKw) (value : Expression k ws e) :
      Statement k (w :: ws) (.ret () (some e))
  | breakLoop (w : Word) (hw : w.kind = .keyword .breakKw) : Statement 0 [w] (.breakLoop ())
  | continueLoop (w : Word) (hw : w.kind = .keyword .continueKw) :
      Statement 0 [w] (.continueLoop ())

/-- A conditional; each `else if` opens one more level. -/
inductive Conditional : Nat → List Word → Stmt Unit → Prop
  | plain {k ws c k' ws' t} (w : Word) (hw : w.kind = .keyword .ifKw)
      (condition : Expression k ws c) (consequent : Block k' ws' t) :
      Conditional (max k k') (w :: ws ++ ws') (.cond () c t none)
  | elseBlock {k ws c k' ws' t k'' ws'' body} (w e : Word) (gap : List Word)
      (hw : w.kind = .keyword .ifKw) (condition : Expression k ws c)
      (consequent : Block k' ws' t) (hgap : Newlines gap) (he : e.kind = .keyword .elseKw)
      (alternative : Block k'' ws'' body) :
      Conditional (max (max k k') k'') (w :: ws ++ ws' ++ gap ++ e :: ws'')
        (.cond () c t (some (.block () body)))
  | elseIf {k ws c k' ws' t k'' ws'' s} (w e : Word) (gap : List Word)
      (hw : w.kind = .keyword .ifKw) (condition : Expression k ws c)
      (consequent : Block k' ws' t) (hgap : Newlines gap) (he : e.kind = .keyword .elseKw)
      (alternative : Conditional k'' ws'' s) :
      Conditional (max (max k k') (k'' + 1)) (w :: ws ++ ws' ++ gap ++ e :: ws'')
        (.cond () c t (some s))

/-- Statements in braces. -/
inductive Block : Nat → List Word → List (Stmt Unit) → Prop
  | braces {k ws body} (o c : Word) (ho : o.kind = .symbol .leftBrace)
      (statements : Statements k ws body) (hc : c.kind = .symbol .rightBrace) :
      Block (k + 1) (o :: ws ++ [c]) body

/-- Statements with at least one separator between any two. -/
inductive Statements : Nat → List Word → List (Stmt Unit) → Prop
  | none (gap : List Word) (hgap : Separators gap) : Statements 0 gap []
  | last {k ws s} (gap : List Word) (hgap : Separators gap) (statement : Statement k ws s) :
      Statements k (gap ++ ws) [s]
  | more {k ws s k' ws' rest} (gap : List Word) (w : Word) (hgap : Separators gap)
      (statement : Statement k ws s) (hw : IsSeparator w) (others : Statements k' ws' rest) :
      Statements (max k k') (gap ++ ws ++ w :: ws') (s :: rest)

end

/-- **The grammar of programs**: the words `ws` spell the tree `p`, opening `k` levels. -/
def Spells (k : Nat) (ws : List Word) (p : Program Unit) : Prop := Statements k ws p.statements

end Grammar

/-! ## The tables of the levels

  The parser reads each level by its own table, the layout writes operators by another.  Both are
  those of the grammar. -/

namespace Grammar

variable {p q : Precedence} {x : Symbol} {op : Operator}

/-- **The parser's operators** of a level are those of the grammar. -/
theorem operator?_eq_some_iff : p.operator? x = some op ↔ OperatorAt p x op := by
  constructor
  · intro h
    unfold Precedence.operator? at h
    split at h
    case h_14 => exact nomatch h
    all_goals
      cases h
      constructor
  · intro h
    cases h <;> rfl

/-- The parser's unary operators are those of the grammar. -/
theorem ofSymbol?_eq_some_iff {op : UnaryOp} : UnaryOp.ofSymbol? x = some op ↔ UnaryAt x op := by
  constructor
  · intro h
    unfold UnaryOp.ofSymbol? at h
    split at h
    case h_3 => exact nomatch h
    all_goals
      cases h
      constructor
  · intro h
    cases h <;> rfl

/-- The operands of a level are of the level that the parser reads them at. -/
theorem OperandAt.eq_tighter (h : OperandAt p q) : q = p.tighter := by
  cases h <;> rfl

/-- Every level but that of calls has operands. -/
theorem operandAt_tighter (hor : .or ≤ p) (hcall : p < .call) : OperandAt p p.tighter := by
  cases p with
  | assignment => exact absurd hor (by decide)
  | call => exact absurd hcall (by decide)
  | _ => constructor

/-- **The operators of the layout**: an operator stands at the level and is the symbol that it is
    laid out with. -/
theorem operatorAt_iff : OperatorAt p x op ↔ p = op.precedence ∧ x = op.symbol := by
  constructor
  · intro h
    cases h <;> exact ⟨rfl, rfl⟩
  · rintro ⟨rfl, rfl⟩
    rcases op with (_ | _) | (_ | _) | (_ | _ | _ | _) | (_ | _ | _ | _ | _) <;> constructor

/-- Every operator stands on the level that the tree gives it. -/
theorem operatorAt (op : Operator) : OperatorAt op.precedence op.symbol op :=
  operatorAt_iff.mpr ⟨rfl, rfl⟩

/-- The unary operators are those of the tree. -/
theorem unaryAt_iff {op : UnaryOp} : UnaryAt x op ↔ x = op.symbol := by
  constructor
  · intro h
    cases h <;> rfl
  · rintro rfl
    cases op <;> constructor

/-- A symbol is an infix operator of one level at most. -/
theorem OperatorAt.unique {p' : Precedence} {op' : Operator} (h : OperatorAt p x op)
    (h' : OperatorAt p' x op') : p = p' ∧ op = op' := by
  cases h <;> cases h' <;> exact ⟨rfl, rfl⟩

/-- Infix operators stand below unary ones. -/
theorem OperatorAt.lt_unary (h : OperatorAt p x op) : p < .unary := by
  cases h <;> decide

/-- No infix operator stands below the loosest level. -/
theorem OperatorAt.or_le (h : OperatorAt p x op) : .or ≤ p := by
  cases h <;> decide

/-- A level with infix operators is looser than a call. -/
theorem OperandAt.lt_call (h : OperandAt p q) : p < .call := by
  cases h <;> decide

/-- An operand stands one level above. -/
theorem OperandAt.rank_eq (h : OperandAt p q) : q.rank = p.rank + 1 := by
  cases h <;> rfl

/-- The operands of a level are tighter than it. -/
theorem OperandAt.lt (h : OperandAt p q) : p < q := by
  cases h <;> decide

end Grammar

/-- Operators are told apart by their symbols. -/
theorem Operator.symbol_inj {op op' : Operator} (h : op.symbol = op'.symbol) : op = op' :=
  ((Grammar.operatorAt op).unique (h ▸ Grammar.operatorAt op')).2

/-! ## First words

  The first word of an expression or a statement tells it apart from a separator, a closing
  bracket and an `else`. -/

/-- Kinds of words that an expression may start with. -/
def TokenKind.startsExpression : TokenKind → Bool
  | .integer _ | .float _ | .str _ | .identifier => true
  | .keyword .trueKw | .keyword .falseKw | .keyword .nilKw => true
  | .symbol .leftParen | .symbol .minus | .symbol .bang => true
  | _ => false

/-- Kinds of words that a statement may start with. -/
def TokenKind.startsStatement : TokenKind → Bool
  | .keyword .elseKw => false
  | .keyword _ | .symbol .leftBrace => true
  | kind => kind.startsExpression

theorem TokenKind.startsStatement_of_startsExpression {kind : TokenKind}
    (h : kind.startsExpression = true) : kind.startsStatement = true := by
  match kind with
  | .integer _ | .float _ | .str _ | .identifier => rfl
  | .keyword k => cases k <;> first | rfl | exact absurd h (by decide)
  | .symbol x => cases x <;> first | rfl | exact absurd h (by decide)
  | .newline | .eof => exact absurd h (by decide)

/-- A unary operator starts an expression. -/
theorem Grammar.UnaryAt.startsExpression {x : Symbol} {op : UnaryOp} (h : UnaryAt x op) :
    (TokenKind.symbol x).startsExpression = true := by
  cases h <;> rfl

/-- An atom starts an expression. -/
theorem Word.startsExpression_of_atom? {w : Word} {e : Expr Unit} (h : w.atom? = some e) :
    w.kind.startsExpression = true := by
  obtain ⟨kind, text⟩ := w
  match kind with
  | .integer _ | .float _ | .str _ | .identifier => rfl
  | .keyword k => cases k <;> first | rfl | exact nomatch h
  | .symbol _ | .newline | .eof => exact nomatch h

/-- The only atom that is a name is an identifier with that text. -/
theorem Word.atom?_eq_name {w : Word} {x : String} (h : w.atom? = some (.name () x)) :
    w.kind = .identifier ∧ w.text = x := by
  obtain ⟨kind, text⟩ := w
  match kind with
  | .identifier => exact ⟨rfl, (Expr.name.inj (Option.some.inj h)).2⟩
  | .keyword k => cases k <;> exact nomatch h
  | .integer _ | .float _ | .str _ | .symbol _ | .newline | .eof => exact nomatch h

namespace Grammar

/-- The first of the words starts an expression. -/
def StartsExpression (ws : List Word) : Prop :=
  ∃ w rest, ws = w :: rest ∧ w.kind.startsExpression = true

/-- The first of the words starts a statement. -/
def StartsStatement (ws : List Word) : Prop :=
  ∃ w rest, ws = w :: rest ∧ w.kind.startsStatement = true

theorem StartsExpression.append {ws : List Word} (h : StartsExpression ws) (more : List Word) :
    StartsExpression (ws ++ more) := by
  obtain ⟨w, rest, rfl, hw⟩ := h
  exact ⟨w, rest ++ more, rfl, hw⟩

/-- An expression may stand as a statement. -/
theorem StartsExpression.startsStatement {ws : List Word} (h : StartsExpression ws) :
    StartsStatement ws := by
  obtain ⟨w, rest, rfl, hw⟩ := h
  exact ⟨w, rest, rfl, TokenKind.startsStatement_of_startsExpression hw⟩

theorem startsExpression_cons {w : Word} {kind : TokenKind} (rest : List Word)
    (h : w.kind = kind) (hkind : kind.startsExpression = true) :
    StartsExpression (w :: rest) :=
  ⟨w, rest, rfl, by rw [h]; exact hkind⟩

theorem startsStatement_cons {w : Word} {kind : TokenKind} (rest : List Word)
    (h : w.kind = kind) (hkind : kind.startsStatement = true) :
    StartsStatement (w :: rest) :=
  ⟨w, rest, rfl, by rw [h]; exact hkind⟩

mutual

/-- **The first word of an expression.** -/
theorem Expression.starts {k : Nat} {ws : List Word} {e : Expr Unit} :
    Expression k ws e → StartsExpression ws
  | .assign x eq gap hx _ _ _ => startsExpression_cons _ hx rfl
  | .operand h => h.starts

/-- The first word of a level of operators: that of its first operand, or a unary operator. -/
theorem Level.starts {p : Precedence} {m k : Nat} {ws : List Word} {e : Expr Unit} :
    Level p m k ws e → StartsExpression ws
  | .tighter _ h => h.starts
  | .link _ _ o gap left _ _ _ => by
    rw [List.append_assoc]
    exact left.starts.append _
  | .unary hop o ho _ => startsExpression_cons _ ho hop.startsExpression
  | .call o callee _ _ => callee.starts.append _
  | .atom hw => ⟨_, [], rfl, Word.startsExpression_of_atom? hw⟩
  | .parens o c gap gap' ho _ _ _ _ => startsExpression_cons _ ho rfl

end

theorem Conditional.starts {k : Nat} {ws : List Word} {s : Stmt Unit}
    (h : Conditional k ws s) : StartsStatement ws := by
  cases h with
  | plain w hw _ _ => exact startsStatement_cons _ hw rfl
  | elseBlock w e gap hw _ _ _ _ _ => exact startsStatement_cons _ hw rfl
  | elseIf w e gap hw _ _ _ _ _ => exact startsStatement_cons _ hw rfl

theorem Block.starts {k : Nat} {ws : List Word} {body : List (Stmt Unit)}
    (h : Block k ws body) : StartsStatement ws := by
  cases h with
  | braces o c ho _ _ => exact startsStatement_cons _ ho rfl

/-- **The first word of a statement.** -/
theorem Statement.starts {k : Nat} {ws : List Word} {s : Stmt Unit}
    (h : Statement k ws s) : StartsStatement ws := by
  cases h with
  | expr value => exact value.starts.startsStatement
  | declare w x hw _ => exact startsStatement_cons _ hw rfl
  | declareAs w x eq gap hw _ _ _ _ => exact startsStatement_cons _ hw rfl
  | print w o hw _ _ => exact startsStatement_cons _ hw rfl
  | block block => exact block.starts
  | cond conditional => exact conditional.starts
  | loop w hw _ _ => exact startsStatement_cons _ hw rfl
  | function w f o hw _ _ _ _ => exact startsStatement_cons _ hw rfl
  | ret w hw => exact startsStatement_cons _ hw rfl
  | retValue w hw _ => exact startsStatement_cons _ hw rfl
  | breakLoop w hw => exact startsStatement_cons _ hw rfl
  | continueLoop w hw => exact startsStatement_cons _ hw rfl

/-- No expression is empty. -/
theorem StartsExpression.length_pos {ws : List Word} (h : StartsExpression ws) :
    0 < ws.length := by
  obtain ⟨w, rest, rfl, -⟩ := h
  exact Nat.succ_pos _

theorem StartsStatement.length_pos {ws : List Word} (h : StartsStatement ws) :
    0 < ws.length := by
  obtain ⟨w, rest, rfl, -⟩ := h
  exact Nat.succ_pos _

/-- **A single word derives the atom that it is**, and nothing else. -/
theorem Level.atom_of_length_eq_one {p : Precedence} {m k : Nat} {ws : List Word} {e : Expr Unit} :
    Level p m k ws e → ws.length = 1 → ∃ w, ws = [w] ∧ w.atom? = some e
  | .tighter _ inner, hlen => inner.atom_of_length_eq_one hlen
  -- an operator has words on both sides
  | .link _ _ o gap left _ _ right, hlen => by
    have := left.starts.length_pos
    have := right.starts.length_pos
    simp only [List.length_append, List.length_cons] at hlen
    omega
  | .unary _ o _ operand, hlen => by
    have := operand.starts.length_pos
    rw [List.length_cons] at hlen
    omega
  -- a call has a callee in front of its parenthesis
  | .call o callee _ arguments, hlen => by
    have := callee.starts.length_pos
    cases arguments <;> simp only [List.length_append, List.length_cons] at hlen <;> omega
  | .atom hw, _ => ⟨_, rfl, hw⟩
  -- parentheses are words themselves
  | .parens o c gap gap' _ _ inner _ _, hlen => by
    have := inner.starts.length_pos
    simp only [List.length_append, List.length_cons] at hlen
    omega

end Grammar

end Scriptlet
