/-
  The fewest parentheses: no source of a program has fewer than its layout.

  1. **Counting** (`openings`) — the opening parentheses among words, those of calls, definitions
     and `print` included.
  2. **The crux (`Level.openings_le`)** — words that derive an operand at some level hold at least
     the parentheses that the layout writes there: an expression that binds less tightly than the
     place asks for is derived there only through the rule for parentheses.
  3. **The result** (`format_fewest_openings`) — so it is for every derivation of a program, by
     induction, and the words of a source that was accepted derive its program.
-/
import Scriptlet.Proofs.Layout.Stability
import Scriptlet.Proofs.Token.Account

namespace Scriptlet

open Grammar

variable {α : Type}

/-! ## Counting -/

/-- The number of opening parentheses among words. -/
def openings (ws : List Word) : Nat := ws.countP fun w => w.kind == .symbol .leftParen

/-- The number of opening parentheses of a token list. -/
def Token.openings (tokens : List Token) : Nat :=
  tokens.countP fun t => t.kind == .symbol .leftParen

/-- One for an opening parenthesis, and zero for every other word. -/
def Word.opens (w : Word) : Nat := if w.kind == .symbol .leftParen then 1 else 0

section Counting

variable {w : Word} {kind : TokenKind}

/-- Only the kind of a word decides. -/
theorem Word.opens_eq_one (h : w.kind = .symbol .leftParen) : w.opens = 1 := by
  rw [Word.opens, h]
  rfl

@[simp] theorem Word.opens_ofName (x : String) : (Word.ofName x).opens = 0 := rfl

@[simp] theorem Word.opens_ofKeyword (k : Keyword) : (Word.ofKeyword k).opens = 0 := rfl

@[simp] theorem Word.opens_lineEnd : Word.lineEnd.opens = 0 := rfl

@[simp] theorem Word.opens_leftParen : (Word.ofSymbol .leftParen).opens = 1 := rfl

@[simp] theorem Word.opens_rightParen : (Word.ofSymbol .rightParen).opens = 0 := rfl

@[simp] theorem Word.opens_comma : (Word.ofSymbol .comma).opens = 0 := rfl

@[simp] theorem Word.opens_assign : (Word.ofSymbol .assign).opens = 0 := rfl

@[simp] theorem Word.opens_leftBrace : (Word.ofSymbol .leftBrace).opens = 0 := rfl

@[simp] theorem Word.opens_rightBrace : (Word.ofSymbol .rightBrace).opens = 0 := rfl

/-- No infix operator is a parenthesis. -/
@[simp] theorem Word.opens_operator (op : Operator) : (Word.ofSymbol op.symbol).opens = 0 := by
  rcases op with (_ | _) | (_ | _) | (_ | _ | _ | _) | (_ | _ | _ | _ | _) <;> rfl

/-- No sign is a parenthesis. -/
@[simp] theorem Word.opens_unaryOp (op : UnaryOp) : (Word.ofSymbol op.symbol).opens = 0 := by
  cases op <;> rfl

/-- A parenthesis in a string is no word. -/
@[simp] theorem Word.opens_ofLiteral (v : Literal) : (Word.ofLiteral v).opens = 0 := by
  match v with
  | .nil | .bool true | .bool false | .integer _ | .float _ | .str _ => rfl

@[simp] theorem openings_nil : openings [] = 0 := rfl

@[simp] theorem openings_cons (w : Word) (ws : List Word) :
    openings (w :: ws) = w.opens + openings ws :=
  (List.countP_cons ..).trans (Nat.add_comm ..)

/-- Parentheses are counted word by word. -/
@[simp] theorem openings_append (ws ws' : List Word) :
    openings (ws ++ ws') = openings ws + openings ws' := List.countP_append ..

/-- Commas between items are no parentheses. -/
@[simp] theorem openings_commaWords (items : List (List Word)) :
    openings (commaWords items) = openings items.flatten := by
  induction items with
  | nil => rfl
  | cons ws items ih =>
    cases items with
    | nil => simp [commaWords, List.intercalate]
    | cons ws' items => simp [commaWords_cons, ih]

/-- Nor is what closes a list. -/
@[simp] theorem openings_closedWords (items : List (List Word)) :
    openings (closedWords items) = openings items.flatten := by
  simp [closedWords]

/-- Nor are braces and line ends. -/
@[simp] theorem openings_bracedWords (lines : List Word) :
    openings (bracedWords lines) = openings lines := by
  simp [bracedWords]

/-- The tokens of a text are its words, and an `eof` at the end. -/
theorem openings_words {source : String} {tokens : List Token} (h : scan source = .ok tokens) :
    openings (Token.words tokens) = Token.openings tokens := by
  obtain ⟨-, -, body, rfl, hbody⟩ := (scan_eq_ok_iff_account source tokens).mp h
  rw [Token.words_append hbody, Token.words_cons, if_pos rfl, List.append_nil]
  simp only [Scriptlet.openings, Token.openings, List.countP_map, List.countP_append]
  rfl

end Counting

/-! ## Expressions -/

/-- The parentheses that the layout writes around an operand in a place of level `p`. -/
def Expr.enclosing (p : Precedence) (e : Expr α) : Nat := if e.precedence < p then 1 else 0

/-- The layout writes one pair at most around an operand. -/
theorem Expr.enclosing_le_one (p : Precedence) (e : Expr α) : e.enclosing p ≤ 1 := by
  unfold Expr.enclosing
  split <;> omega

/-- It writes none where the expression binds tightly enough. -/
theorem Expr.enclosing_eq_zero {p : Precedence} {e : Expr α} (h : p ≤ e.precedence) :
    e.enclosing p = 0 := if_neg (Nat.not_lt.mpr h)

/-- A tighter place asks for more. -/
theorem Expr.enclosing_mono {p q : Precedence} (h : p ≤ q) (e : Expr α) :
    e.enclosing p ≤ e.enclosing q := by
  by_cases hp : p ≤ e.precedence
  · rw [Expr.enclosing_eq_zero hp]
    exact Nat.zero_le _
  · have hlt : e.precedence < q := Nat.lt_of_lt_of_le (Nat.lt_of_not_le hp) h
    have hone : e.enclosing q = 1 := if_pos hlt
    rw [hone]
    exact e.enclosing_le_one p

/-- The place on the right of an operator is one level tighter than the operator. -/
theorem Expr.enclosing_right {p q : Precedence} (hq : OperandAt p q) (e : Expr α) :
    e.enclosing q = if e.precedence ≤ p then 1 else 0 := by
  have hrank := hq.rank_eq
  have hiff : e.precedence < q ↔ e.precedence ≤ p := by
    show e.precedence.rank < q.rank ↔ e.precedence.rank ≤ p.rank
    omega
  simp only [Expr.enclosing, hiff]

/-- One pair is one opening parenthesis. -/
theorem openings_parenthesizedWords (needed : Prop) [Decidable needed] (ws : List Word) :
    openings (parenthesizedWords needed ws) = openings ws + if needed then 1 else 0 := by
  by_cases h : needed
  · simp [parenthesizedWords, h, Nat.add_comm]
  · simp [parenthesizedWords, h]

/-- What a single word is needs no parentheses: numbers are written without a sign. -/
theorem Word.openings_atom {w : Word} {e : Expr Unit} (h : w.atom? = some e)
    (hw : w.isWritable = true) : openings e.words = 0 ∧ .call ≤ e.precedence := by
  have hwell := Word.wellFormed_atom h hw
  -- a literal of a program has no sign, so it binds as tightly as can be
  have literal {v : Literal} (hv : e = .literal () v) :
      openings e.words = 0 ∧ .call ≤ e.precedence := by
    subst hv
    have hprec : (Expr.literal () v).precedence = .call :=
      if_neg (by rw [Literal.isNegative_of_isWritable hwell]; decide)
    refine ⟨?_, Nat.le_of_eq (congrArg Precedence.rank hprec.symm)⟩
    simp only [Expr.words, openings_cons, openings_nil, Word.opens_ofLiteral]
  obtain ⟨kind, text⟩ := w
  -- what the word is depends on its kind
  match kind with
  | .integer _ | .float _ | .str _ => exact literal (Option.some.inj h).symm
  | .identifier =>
    cases h
    exact ⟨rfl, Nat.le_refl _⟩
  | .keyword k =>
    cases k <;> first | exact literal (Option.some.inj h).symm | exact nomatch h
  | .symbol _ | .newline | .eof => exact nomatch h

mutual

/-- Words that derive an expression hold the parentheses of its layout. -/
theorem Grammar.Expression.openings_le {k : Nat} {ws : List Word} {e : Expr Unit} :
    Expression k ws e → Writable ws → openings e.words ≤ openings ws
  | .assign x eq gap _ _ _ value, hws => by
    simp only [writable_cons, writable_append] at hws
    have hvalue := value.openings_le hws.2
    simp only [Expr.words, openings_cons, openings_append, Word.opens_ofName, Word.opens_assign]
    omega
  | .operand operand, hws => Nat.le_trans (Nat.le_add_right _ _) (operand.openings_le hws)

/-- **Words that derive an operand** in a place of level `p` hold the parentheses of its layout, and
    those around it that the place asks for. -/
theorem Grammar.Level.openings_le {p : Precedence} {m k : Nat} {ws : List Word} {e : Expr Unit} :
    Level p m k ws e → Writable ws → openings e.words + e.enclosing p ≤ openings ws
  | .tighter hq inner, hws => by
    have hinner := inner.openings_le hws
    have hmono := e.enclosing_mono (Nat.le_of_lt hq.lt)
    omega
  | @Level.link _ _ _ op _ _ _ l _ _ _ r hop hq o gap left _ _ right, hws => by
    simp only [writable_cons, writable_append] at hws
    have hleft := left.openings_le hws.1.1
    have hright := right.openings_le hws.2
    rw [Expr.enclosing] at hleft
    rw [Expr.enclosing_right hq] at hright
    -- the layout asks for parentheses by the level that the operator has in its own table
    obtain ⟨rfl, -⟩ := operatorAt_iff.mp hop
    have hself : (Expr.operation () op l r).enclosing op.precedence = 0 :=
      Expr.enclosing_eq_zero (Nat.le_refl _)
    simp only [Expr.words, openings_append, openings_cons, openings_parenthesizedWords,
      Word.opens_operator]
    omega
  | @Level.unary _ op _ _ _ e _ o _ operand, hws => by
    have hoperand := operand.openings_le (writable_cons.mp hws).2
    rw [Expr.enclosing] at hoperand
    have hself : (Expr.unary () op e).enclosing .unary = 0 := Expr.enclosing_eq_zero (Nat.le_refl _)
    simp only [Expr.words, openings_cons, openings_parenthesizedWords, Word.opens_unaryOp]
    omega
  | @Level.call _ _ _ f _ _ args o callee ho arguments, hws => by
    simp only [writable_cons, writable_append] at hws
    have hcallee := callee.openings_le hws.1
    have harguments := enclosed_openings_le arguments hws.2.2
    rw [Expr.enclosing] at hcallee
    have hself : (Expr.call () f args).enclosing .call = 0 := Expr.enclosing_eq_zero (Nat.le_refl _)
    simp only [Expr.words, openings_append, openings_cons, openings_parenthesizedWords,
      openings_closedWords, Word.opens_leftParen, Word.opens_eq_one ho]
    omega
  | .atom hw, hws => by
    obtain ⟨hwords, hprec⟩ := Word.openings_atom hw (writable_cons.mp hws).1
    rw [hwords, Expr.enclosing_eq_zero hprec]
    exact Nat.zero_le _
  | .parens o c gap gap' ho _ inner _ _, hws => by
    simp only [writable_cons, writable_append] at hws
    have hinner := inner.openings_le hws.1.1.2
    have hone := e.enclosing_le_one .call
    simp only [openings_append, openings_cons, Word.opens_eq_one ho]
    omega

/-- Arguments: the words derive each of them. -/
theorem enclosed_openings_le {k : Nat} {ws : List Word} {es : List (Expr Unit)} :
    Enclosed Expression k ws es → Writable ws →
      openings (Expr.listWords es).flatten ≤ openings ws
  | .none gap close _ _, _ => Nat.zero_le _
  | .some gap gap' close _ items _ _, hws => by
    simp only [writable_append] at hws
    have hitems := commaList_openings_le items hws.1.1.2
    simp only [openings_append]
    omega

/-- Argument by argument. -/
theorem commaList_openings_le {k : Nat} {ws : List Word} {es : List (Expr Unit)} :
    CommaList Expression k ws es → Writable ws →
      openings (Expr.listWords es).flatten ≤ openings ws
  | .one item, hws => by
    rw [Expr.listWords, Expr.listWords, List.flatten_cons, List.flatten_nil, List.append_nil]
    exact item.openings_le hws
  | .more comma before after item _ _ _ others, hws => by
    simp only [writable_cons, writable_append] at hws
    have hitem := item.openings_le hws.1.1.1
    have hothers := commaList_openings_le others hws.2
    simp only [Expr.listWords, List.flatten_cons, openings_append, openings_cons]
    omega

end

/-! ## Statements -/

/-- A value behind its lead, if there is one. -/
theorem openings_words? (lead : List Word) (hlead : openings lead = 0) {k : Nat} {ws : List Word}
    {e : Expr Unit} (value : Expression k ws e) (hws : Writable ws) :
    openings (Expr.words? lead (some e)) ≤ openings ws := by
  rw [Expr.words?, openings_append, hlead, Nat.zero_add]
  exact value.openings_le hws

/-- Parameters are names. -/
theorem openings_parameters (params : List String) :
    openings (closedWords (params.map fun x => [.ofName x])) = 0 := by
  rw [openings_closedWords]
  induction params with
  | nil => rfl
  | cons x params ih => simpa using ih

mutual

/-- Words that derive a statement hold the parentheses of its layout. -/
theorem Grammar.Statement.openings_le {k : Nat} {ws : List Word} {s : Stmt Unit} :
    Statement k ws s → Writable ws → openings s.words ≤ openings ws
  | .expr value, hws => value.openings_le hws
  | .declare w x _ _, _ => Nat.zero_le _
  | .declareAs w x eq gap _ _ _ _ value, hws => by
    simp only [writable_cons, writable_append] at hws
    have hvalue := openings_words? [.ofSymbol .assign] rfl value hws.2
    simp only [Stmt.words, openings_cons, openings_append, Word.opens_ofKeyword,
      Word.opens_ofName]
    omega
  | .print w o _ ho arguments, hws => by
    have harguments := enclosed_openings_le arguments (writable_cons.mp (writable_cons.mp hws).2).2
    -- the parenthesis of the statement itself is in the source as well
    simp only [Stmt.words, openings_cons, openings_closedWords, Word.opens_ofKeyword,
      Word.opens_leftParen, Word.opens_eq_one ho]
    omega
  | .block block, hws => by
    rw [Stmt.words, openings_bracedWords]
    exact block.openings_le hws
  | .cond conditional, hws => conditional.openings_le hws
  | .loop w _ condition block, hws => by
    simp only [writable_cons, writable_append] at hws
    have hcondition := condition.openings_le hws.1.2
    -- a loop has no parenthesis of its own
    have hblock := block.openings_le hws.2
    simp only [Stmt.words, openings_cons, openings_append, openings_bracedWords,
      Word.opens_ofKeyword]
    omega
  | .function w f o _ _ ho parameters block, hws => by
    simp only [writable_cons, writable_append] at hws
    have hblock := block.openings_le hws.2
    -- names in a list have none
    simp only [Stmt.words, openings_cons, openings_append, openings_bracedWords,
      openings_parameters, Word.opens_ofKeyword, Word.opens_ofName, Word.opens_leftParen,
      Word.opens_eq_one ho]
    omega
  | .ret _ _, _ => Nat.zero_le _
  | .retValue w _ value, hws => by
    have hvalue := openings_words? [] rfl value (writable_cons.mp hws).2
    simp only [Stmt.words, openings_cons, Word.opens_ofKeyword]
    omega
  | .breakLoop _ _, _ => Nat.zero_le _
  | .continueLoop _ _, _ => Nat.zero_le _

/-- A conditional: none of its words but those of its parts are parentheses. -/
theorem Grammar.Conditional.openings_le {k : Nat} {ws : List Word} {s : Stmt Unit} :
    Conditional k ws s → Writable ws → openings s.words ≤ openings ws
  | .plain w _ condition consequent, hws => by
    simp only [writable_cons, writable_append] at hws
    have hcondition := condition.openings_le hws.1.2
    have hconsequent := consequent.openings_le hws.2
    simp only [Stmt.words, openings_cons, openings_append, openings_bracedWords,
      Word.opens_ofKeyword]
    omega
  | .elseBlock w e gap _ condition consequent _ _ alternative, hws => by
    simp only [writable_cons, writable_append] at hws
    have hcondition := condition.openings_le hws.1.1.1.2
    have hconsequent := consequent.openings_le hws.1.1.2
    have halternative := alternative.openings_le hws.2.2
    simp only [Stmt.words, openings_cons, openings_append, openings_bracedWords,
      Word.opens_ofKeyword]
    omega
  | .elseIf w e gap _ condition consequent _ _ alternative, hws => by
    simp only [writable_cons, writable_append] at hws
    have hcondition := condition.openings_le hws.1.1.1.2
    have hconsequent := consequent.openings_le hws.1.1.2
    have halternative := alternative.openings_le hws.2.2
    simp only [Stmt.words, openings_cons, openings_append, openings_bracedWords,
      Word.opens_ofKeyword]
    omega

/-- A block: the braces count nothing. -/
theorem Grammar.Block.openings_le {k : Nat} {ws : List Word} {body : List (Stmt Unit)} :
    Block k ws body → Writable ws → openings (Stmt.lineWords body) ≤ openings ws
  | .braces o c _ statements _, hws => by
    simp only [writable_cons, writable_append] at hws
    have hstatements := statements.openings_le hws.1.2
    simp only [openings_append, openings_cons]
    omega

/-- Statement by statement. -/
theorem Grammar.Statements.openings_le {k : Nat} {ws : List Word} {body : List (Stmt Unit)} :
    Statements k ws body → Writable ws → openings (Stmt.lineWords body) ≤ openings ws
  | .none gap _, _ => Nat.zero_le _
  | .last gap _ statement, hws => by
    have hstatement := statement.openings_le (writable_append.mp hws).2
    simp only [Stmt.lineWords, openings_append, openings_cons, openings_nil, Word.opens_lineEnd]
    omega
  | .more gap w _ statement _ others, hws => by
    simp only [writable_cons, writable_append] at hws
    have hstatement := statement.openings_le hws.1.2
    have hothers := others.openings_le hws.2.2
    simp only [Stmt.lineWords, openings_append, openings_cons, Word.opens_lineEnd]
    omega

end

/-! ## Sources -/

/-- The layout of a program has no more opening parentheses than any source of a program of the
    same shape. -/
theorem openings_format_le {p q : Program Origin} {source : String} {tokens canonical : List Token}
    (hwell : p.wellFormed = true) (hcanonical : scan p.format = .ok canonical)
    (hscan : scan source = .ok tokens) (hparse : parse tokens = .ok q)
    (hshape : q.shape = p.shape) :
    Token.openings canonical ≤ Token.openings tokens := by
  obtain ⟨⟨k, -, hspells⟩, -⟩ := parse_sound hparse
  have hshaped : p.shape.wellFormed = true := by
    rw [← hwell]
    show (_ && _) = (_ && _)
    rw [Program.wellPlaced_shape]
    exact congrArg _ (Stmt.allWellFormed_shapes p.statements)
  -- the tokens of the format are the words of the shape
  obtain ⟨tokens', hscan', hwords⟩ := p.shape.scan_format hshaped
  rw [Program.format_shape, hcanonical] at hscan'
  cases hscan'
  rw [← openings_words hcanonical, ← openings_words hscan, hwords, ← hshape]
  exact Statements.openings_le hspells (scan_writable hscan)

/-- **The layout has the fewest parentheses.**  The format of the program of a source that was
    accepted has no more opening parentheses than the source, nor than any other source of a program
    of the same shape. -/
theorem format_fewest_openings {source : String} {tokens : List Token} {p : Program Origin}
    (hscan : scan source = .ok tokens) (hparse : parse tokens = .ok p) :
    ∃ canonical, scan p.format = .ok canonical ∧
      Token.openings canonical ≤ Token.openings tokens ∧
      ∀ source' tokens' p', scan source' = .ok tokens' → parse tokens' = .ok p' →
        p'.shape = p.shape → Token.openings canonical ≤ Token.openings tokens' := by
  have hwell : p.wellFormed = true :=
    Program.wellFormed_of_parseSource (parseSource_eq_ok.mpr ⟨tokens, hscan, hparse⟩)
  obtain ⟨canonical, hcanonical, -⟩ := p.scan_format hwell
  exact ⟨canonical, hcanonical, openings_format_le hwell hcanonical hscan hparse rfl,
    fun _ _ _ => openings_format_le hwell hcanonical⟩

/-- Of the five opening parentheses of this source its layout `f(a - b * c - (d - e))` keeps two,
    that of the call and that of the right operand. -/
theorem format_fewest_openings_difference : ∃ tokens p canonical,
    scan "(f)((a - (b * c)) - (d - e))" = .ok tokens ∧ parse tokens = .ok p ∧
      scan p.format = .ok canonical ∧ Token.openings tokens = 5 ∧
      Token.openings canonical = 2 ∧ Token.openings canonical ≤ Token.openings tokens := by
  -- source and layout, evaluated
  have hrun : (scan "(f)((a - (b * c)) - (d - e))").toOption.bind (fun tokens =>
      (parse tokens).toOption.bind fun p => (scan p.format).toOption.map fun canonical =>
        (Token.openings tokens, Token.openings canonical)) = some (5, 2) := by decide +kernel
  cases hscan : scan "(f)((a - (b * c)) - (d - e))" with
  | error e => rw [hscan] at hrun; exact nomatch hrun
  | ok tokens =>
    rw [hscan] at hrun
    cases hparse : parse tokens with
    | error e =>
      change ((parse tokens).toOption.bind _) = _ at hrun
      rw [hparse] at hrun
      exact nomatch hrun
    | ok p =>
      change ((parse tokens).toOption.bind _) = _ at hrun
      rw [hparse] at hrun
      obtain ⟨canonical, hcanonical, hle, -⟩ := format_fewest_openings hscan hparse
      -- the layout is the one that the theorem speaks of
      change (scan p.format).toOption.map _ = _ at hrun
      rw [hcanonical] at hrun
      obtain ⟨hfive, htwo⟩ := Prod.mk.inj (Option.some.inj hrun)
      exact ⟨tokens, p, canonical, rfl, hparse, hcanonical, hfive, htwo, hle⟩

end Scriptlet
