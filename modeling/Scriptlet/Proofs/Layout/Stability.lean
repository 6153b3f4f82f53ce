/-
  Stability: what formatting makes of source that was accepted.

  1. **Scanned words are writable** (`scan_writable`) — the names, integers and floats that `scan`
     finds are such as a layout can write: no keyword is an identifier, no number has a sign.
  2. **Derived trees are well formed** — a tree takes its names and literals from the words that
     derive it, so the program of an accepted source is well formed.
  3. **The crux (`parseSource_format`)** — the format of such a program is accepted, with the same
     shape and the same format again, exactly if its nesting is within the bound.  The source may
     have less nesting than the format: parentheses around a left operand start a chain of their
     own, and the layout, which drops them, merges the two chains into a longer one.
-/
import Scriptlet.Error
import Scriptlet.Proofs.Layout.RoundTrip

namespace Scriptlet

open Grammar
open Scan (isName)

variable {α : Type}

/-! ## Writable words -/

/-- Whether the name or number of a word can be written. -/
def Word.isWritable (w : Word) : Bool :=
  match w.kind with
  | .identifier => isName w.text
  | .integer n => (Literal.integer n).isWritable
  | .float x => (Literal.float x).isWritable
  | _ => true

/-- All the words can be written. -/
def Writable (ws : List Word) : Prop := ∀ w ∈ ws, w.isWritable = true

/-- Words are writable one by one. -/
theorem writable_cons {w : Word} {ws : List Word} :
    Writable (w :: ws) ↔ w.isWritable = true ∧ Writable ws := List.forall_mem_cons

/-- Words are writable stretch by stretch. -/
theorem writable_append {ws ws' : List Word} :
    Writable (ws ++ ws') ↔ Writable ws ∧ Writable ws' := List.forall_mem_append

/-- No ratio is rounded to more than infinity. -/
theorem Binary64.ofRatio_le (num den : Nat) : ofRatio num den ≤ infinityBits := by
  unfold ofRatio
  split
  · exact Nat.zero_le _
  · exact Nat.min_le_left _ _

/-- A fraction without a sign is not read as a negative float. -/
theorem Decimal.isNegative_ofFraction (whole places : List Char) :
    (ofFraction whole places).isNegative = false := by
  have hle : read (natOfDigits (whole ++ places)) (-places.length) ≤ Binary64.infinityBits := by
    unfold read
    split <;> exact Binary64.ofRatio_le _ _
  have hlt : Binary64.infinityBits < Binary64.signWeight := by decide
  unfold ofFraction Binary64.assemble Binary64.isNegative
  refine decide_eq_false ?_
  simp only [Bool.false_eq_true, if_false, Nat.add_zero, UInt64.toNat_ofNat']
  have hmod := Nat.mod_le (read (natOfDigits (whole ++ places)) (-places.length)) (Nat.pow 2 64)
  have hmod : read (natOfDigits (whole ++ places)) (-places.length) % UInt64.size ≤ _ := hmod
  omega

namespace Scan

/-- A word that is scanned as an identifier is a name: it is no keyword. -/
theorem isName_of_wordKind {c : Char} {cs : List Char} (hc : isWordStart c = true)
    (hcs : ∀ d ∈ cs, isWordPart d = true) (h : wordKind (c :: cs) = .identifier) :
    isName (String.ofList (c :: cs)) = true := by
  have hkeyword : Keyword.ofChars? (c :: cs) = none := by
    unfold wordKind at h
    split at h
    case h_1 => exact absurd h (by simp)
    case h_2 hnone => exact hnone
  unfold isName
  rw [String.toList_ofList]
  simp only [hc, hkeyword, Option.isNone_none, Bool.and_true, Bool.true_and, List.all_eq_true]
  exact hcs

/-- The word of a lexeme that was read. -/
def lexemeWord (c : Char) (cs : List Char) (kind : TokenKind) (extra : Nat) : Word :=
  ⟨kind, tokenText kind (c :: cs.take extra)⟩

/-- **The word of a number is writable**: it is finite and has no sign. -/
theorem readNumber_writable {c : Char} {cs : List Char} {kind : TokenKind} {extra : Nat}
    (h : readNumber c cs = .ok (kind, extra)) : (lexemeWord c cs kind extra).isWritable = true := by
  unfold readNumber at h
  dsimp only at h
  split at h
  · -- an integer is read only if it fits, and digits have no sign
    split at h
    case h_1 n hfit =>
      obtain ⟨rfl, -⟩ := Prod.mk.inj (Except.ok.inj h)
      have hvalue := Integer.fit?_eq_some_iff.mp hfit
      exact decide_eq_true (by omega)
    case h_2 => exact absurd h (by simp)
  · -- a float is read only if it is finite
    split at h
    case isTrue hfinite =>
      obtain ⟨rfl, -⟩ := Prod.mk.inj (Except.ok.inj h)
      show (Binary64.isFinite _ && !Binary64.isNegative _) = true
      rw [hfinite, Decimal.isNegative_ofFraction]
      rfl
    case isFalse => exact absurd h (by simp)

/-- **The word of a name or a keyword is writable.** -/
theorem readWord_writable {c : Char} {cs : List Char} {kind : TokenKind} {extra : Nat}
    (hc : isWordStart c = true) (h : readWord c cs = .ok (kind, extra)) :
    (lexemeWord c cs kind extra).isWritable = true := by
  obtain ⟨hkind, hextra⟩ := Prod.mk.inj (Except.ok.inj h)
  -- what is read is the longest word
  have htake : cs.take extra = cs.takeWhile isWordPart := by
    rw [← hextra]
    exact (List.prefix_iff_eq_take.mp (List.takeWhile_prefix isWordPart)).symm
  have hparts : ∀ d ∈ cs.takeWhile isWordPart, isWordPart d = true :=
    fun d hd => List.all_eq_true.mp List.all_takeWhile d hd
  -- a name, or a keyword
  cases hword : wordKind (c :: cs.takeWhile isWordPart) with
  | identifier =>
    rw [hword] at hkind
    subst hkind
    show isName (String.ofList (c :: cs.take extra)) = true
    rw [htake]
    exact isName_of_wordKind hc hparts hword
  | keyword k =>
    rw [hword] at hkind
    subst hkind
    rfl
  | _ => exact absurd hword (by unfold wordKind; split <;> simp)

/-- **A lexeme is writable.** -/
theorem lexeme_writable {c : Char} {cs : List Char} {kind : TokenKind} {extra : Nat}
    (h : lexeme c cs = .ok (kind, extra)) : (lexemeWord c cs kind extra).isWritable = true := by
  unfold lexeme at h
  -- the first character tells the lexeme
  split at h
  · obtain ⟨rfl, -⟩ := Prod.mk.inj (Except.ok.inj h)
    rfl
  split at h
  · obtain ⟨rfl, -⟩ := Prod.mk.inj (Except.ok.inj h)
    rfl
  split at h
  · unfold readString at h
    split at h
    case h_1 =>
      obtain ⟨rfl, -⟩ := Prod.mk.inj (Except.ok.inj h)
      rfl
    all_goals exact absurd h (by simp)
  split at h
  · exact readNumber_writable h
  split at h
  case isTrue hc => exact readWord_writable hc h
  unfold readSymbol at h
  split at h
  case h_1 =>
    obtain ⟨rfl, -⟩ := Prod.mk.inj (Except.ok.inj h)
    rfl
  case h_2 => exact absurd h (by simp)

/-- Every token of a text is writable, by induction on the text. -/
theorem scanFrom_writable (span : Span) (source : List Char) :
    ∀ tokens, scanFrom span source = .ok tokens → Writable (tokens.map Token.word) := by
  fun_induction scanFrom span source with
  | case1 span source start h =>
    intro tokens hok
    rw [← Except.ok.inj hok]
    exact writable_cons.mpr ⟨rfl, fun _ hw => absurd hw List.not_mem_nil⟩
  | case2 => exact fun tokens hok => absurd hok (by simp)
  | case3 => exact fun tokens hok => absurd hok (by simp)
  | case4 span source start c cs h kind extra hlexeme taken others hothers ih =>
    intro tokens hok
    rw [← Except.ok.inj hok]
    exact writable_cons.mpr ⟨lexeme_writable hlexeme, ih others hothers⟩

end Scan

/-- **The words of a scanned text are writable.** -/
theorem scan_writable {source : String} {tokens : List Token} (h : scan source = .ok tokens) :
    Writable (Token.words tokens) := by
  intro w hw
  obtain ⟨t, ht, rfl⟩ := List.mem_map.mp hw
  have hall := Scan.scanFrom_writable _ _ tokens h
  exact hall t.word (List.mem_map_of_mem ((List.takeWhile_sublist _).mem ht))

/-! ## Derived trees -/

/-- The operand that a writable word stands for is well-formed. -/
theorem Word.wellFormed_atom {w : Word} {e : Expr Unit} (h : w.atom? = some e)
    (hw : w.isWritable = true) : e.wellFormed = true := by
  obtain ⟨kind, text⟩ := w
  match kind with
  | .integer _ | .float _ | .identifier =>
    cases h
    exact hw
  | .str _ =>
    cases h
    rfl
  | .keyword k => cases k <;> cases h <;> rfl
  | .symbol _ | .newline | .eof => cases h

/-- The text of an identifier that can be written is a name. -/
theorem Word.isName_text {w : Word} (h : w.kind = .identifier) (hw : w.isWritable = true) :
    isName w.text = true := by
  unfold Word.isWritable at hw
  rwa [h] at hw

mutual

/-- **An expression derived from writable words is well-formed.** -/
theorem Grammar.Expression.wellFormed {k : Nat} {ws : List Word} {e : Expr Unit} :
    Expression k ws e → Writable ws → e.wellFormed = true
  | .assign x eq gap hx _ _ value, hws => by
    simp only [writable_cons, writable_append] at hws
    obtain ⟨⟨hxw, -, -⟩, hvalue⟩ := hws
    exact (Bool.and_eq_true _ _).mpr ⟨Word.isName_text hx hxw, value.wellFormed hvalue⟩
  | .operand operand, hws => operand.wellFormed hws

/-- So is one of a level of operators. -/
theorem Grammar.Level.wellFormed {p : Precedence} {m k : Nat} {ws : List Word} {e : Expr Unit} :
    Level p m k ws e → Writable ws → e.wellFormed = true
  | .tighter _ inner, hws => inner.wellFormed hws
  | .link _ _ o gap left _ _ right, hws => by
    simp only [writable_cons, writable_append] at hws
    obtain ⟨⟨hleft, -, -⟩, hright⟩ := hws
    exact (Bool.and_eq_true _ _).mpr ⟨left.wellFormed hleft, right.wellFormed hright⟩
  | .unary _ o _ operand, hws => operand.wellFormed (writable_cons.mp hws).2
  | .call o callee _ arguments, hws => by
    simp only [writable_cons, writable_append] at hws
    obtain ⟨hcallee, -, harguments⟩ := hws
    exact (Bool.and_eq_true _ _).mpr
      ⟨callee.wellFormed hcallee, enclosed_wellFormed arguments harguments⟩
  | .atom hw, hws => Word.wellFormed_atom hw (writable_cons.mp hws).1
  | .parens o c gap gap' _ _ inner _ _, hws => by
    simp only [writable_cons, writable_append] at hws
    exact inner.wellFormed hws.1.1.2

/-- So are the arguments in parentheses. -/
theorem enclosed_wellFormed {k : Nat} {ws : List Word} {es : List (Expr Unit)} :
    Enclosed Expression k ws es → Writable ws → Expr.allWellFormed es = true
  | .none gap close _ _, _ => rfl
  | .some gap gap' close _ items _ _, hws => by
    simp only [writable_append] at hws
    exact commaList_wellFormed items hws.1.1.2

/-- So are expressions with commas between them. -/
theorem commaList_wellFormed {k : Nat} {ws : List Word} {es : List (Expr Unit)} :
    CommaList Expression k ws es → Writable ws → Expr.allWellFormed es = true
  | .one item, hws => (Bool.and_eq_true _ _).mpr ⟨item.wellFormed hws, rfl⟩
  | .more comma before after item _ _ _ others, hws => by
    simp only [writable_cons, writable_append] at hws
    obtain ⟨⟨⟨hitem, -⟩, -, -⟩, hothers⟩ := hws
    exact (Bool.and_eq_true _ _).mpr
      ⟨item.wellFormed hitem, commaList_wellFormed others hothers⟩

end

/-- Parameters derived from writable words are names. -/
theorem isName_parameters {k : Nat} {ws : List Word} {params : List String}
    (h : Enclosed Parameter k ws params) (hws : Writable ws) : params.all isName = true := by
  cases h with
  | none => rfl
  | some gap gap' close _ items _ _ =>
    simp only [writable_append] at hws
    replace hws := hws.1.1.2
    induction items with
    -- the last parameter
    | one item =>
      obtain ⟨-, w, rfl, hkind, rfl⟩ := item
      have hname := Word.isName_text hkind (writable_cons.mp hws).1
      rw [List.all_cons, hname]
      rfl
    -- one parameter, and others behind it
    | more comma before after item _ _ _ others ih =>
      simp only [writable_cons, writable_append] at hws
      obtain ⟨⟨⟨hitem, -⟩, -, -⟩, hothers⟩ := hws
      obtain ⟨-, w, rfl, hkind, rfl⟩ := item
      have hname := Word.isName_text hkind (writable_cons.mp hitem).1
      rw [List.all_cons, hname, ih hothers]
      rfl

/-- A conditional may stand behind `else`. -/
theorem Grammar.Conditional.isBranch {k : Nat} {ws : List Word} {s : Stmt Unit}
    (h : Conditional k ws s) : s.isBranch = true := by
  cases h <;> rfl

mutual

/-- **A statement derived from writable words is well-formed.** -/
theorem Grammar.Statement.wellFormed {k : Nat} {ws : List Word} {s : Stmt Unit} :
    Statement k ws s → Writable ws → s.wellFormed = true
  | .expr value, hws => value.wellFormed hws
  | .declare w x _ hx, hws => by
    simp only [writable_cons] at hws
    exact (Bool.and_eq_true _ _).mpr ⟨Word.isName_text hx hws.2.1, rfl⟩
  | .declareAs w x eq gap _ hx _ _ value, hws => by
    simp only [writable_cons, writable_append] at hws
    obtain ⟨⟨-, hxw, -, -⟩, hvalue⟩ := hws
    exact (Bool.and_eq_true _ _).mpr ⟨Word.isName_text hx hxw, value.wellFormed hvalue⟩
  | .print w o _ _ arguments, hws =>
    enclosed_wellFormed arguments (writable_cons.mp (writable_cons.mp hws).2).2
  | .block block, hws => block.wellFormed hws
  | .cond conditional, hws => conditional.wellFormed hws
  | .loop w _ condition block, hws => by
    simp only [writable_cons, writable_append] at hws
    obtain ⟨⟨-, hcondition⟩, hblock⟩ := hws
    exact (Bool.and_eq_true _ _).mpr ⟨condition.wellFormed hcondition, block.wellFormed hblock⟩
  | .function w f o _ hf _ parameters block, hws => by
    simp only [writable_cons, writable_append] at hws
    obtain ⟨⟨-, hfw, -, hparameters⟩, hblock⟩ := hws
    have hnames := (Bool.and_eq_true _ _).mpr
      ⟨Word.isName_text hf hfw, isName_parameters parameters hparameters⟩
    exact (Bool.and_eq_true _ _).mpr ⟨hnames, block.wellFormed hblock⟩
  | .ret _ _, _ => rfl
  | .retValue w _ value, hws => value.wellFormed (writable_cons.mp hws).2
  | .breakLoop _ _, _ => rfl
  | .continueLoop _ _, _ => rfl

/-- So is a conditional, with all its branches. -/
theorem Grammar.Conditional.wellFormed {k : Nat} {ws : List Word} {s : Stmt Unit} :
    Conditional k ws s → Writable ws → s.wellFormed = true
  | .plain w _ condition consequent, hws => by
    simp only [writable_cons, writable_append] at hws
    obtain ⟨⟨-, hcondition⟩, hconsequent⟩ := hws
    exact (Bool.and_eq_true _ _).mpr
      ⟨condition.wellFormed hcondition, consequent.wellFormed hconsequent⟩
  | .elseBlock w e gap _ condition consequent _ _ alternative, hws => by
    simp only [writable_cons, writable_append] at hws
    obtain ⟨⟨⟨⟨-, hcondition⟩, hconsequent⟩, -⟩, -, halternative⟩ := hws
    -- a block stands behind `else`
    simp only [Stmt.wellFormed, Bool.and_eq_true]
    exact ⟨⟨⟨condition.wellFormed hcondition, consequent.wellFormed hconsequent⟩, rfl⟩,
      alternative.wellFormed halternative⟩
  | .elseIf w e gap _ condition consequent _ _ alternative, hws => by
    simp only [writable_cons, writable_append] at hws
    obtain ⟨⟨⟨⟨-, hcondition⟩, hconsequent⟩, -⟩, -, halternative⟩ := hws
    -- a conditional stands behind `else`
    simp only [Stmt.wellFormed, Bool.and_eq_true]
    exact ⟨⟨⟨condition.wellFormed hcondition, consequent.wellFormed hconsequent⟩,
      alternative.isBranch⟩, alternative.wellFormed halternative⟩

/-- So are the statements of a block. -/
theorem Grammar.Block.wellFormed {k : Nat} {ws : List Word} {body : List (Stmt Unit)} :
    Block k ws body → Writable ws → Stmt.allWellFormed body = true
  | .braces o c _ statements _, hws => by
    simp only [writable_cons, writable_append] at hws
    exact statements.wellFormed hws.1.2

/-- So are statements with separators between them. -/
theorem Grammar.Statements.wellFormed {k : Nat} {ws : List Word} {body : List (Stmt Unit)} :
    Statements k ws body → Writable ws → Stmt.allWellFormed body = true
  | .none gap _, _ => rfl
  | .last gap _ statement, hws =>
    (Bool.and_eq_true _ _).mpr ⟨statement.wellFormed (writable_append.mp hws).2, rfl⟩
  | .more gap w _ statement _ others, hws => by
    simp only [writable_cons, writable_append] at hws
    obtain ⟨⟨-, hstatement⟩, -, hothers⟩ := hws
    exact (Bool.and_eq_true _ _).mpr
      ⟨statement.wellFormed hstatement, others.wellFormed hothers⟩

end

/-! ## Well-formed trees and their shapes -/

mutual

/-- Whether an expression is well-formed is up to its shape. -/
theorem Expr.wellFormed_shape (e : Expr α) : e.shape.wellFormed = e.wellFormed := by
  match e with
  | .literal _ _ | .name _ _ => simp only [Expr.shape, Expr.wellFormed]
  | .unary _ op e =>
    simp only [Expr.shape, Expr.wellFormed]
    exact Expr.wellFormed_shape e
  | .operation _ op l r =>
    simp only [Expr.shape, Expr.wellFormed]
    rw [Expr.wellFormed_shape l, Expr.wellFormed_shape r]
  | .assign _ x e =>
    simp only [Expr.shape, Expr.wellFormed]
    rw [Expr.wellFormed_shape e]
  | .call _ f args =>
    simp only [Expr.shape, Expr.wellFormed]
    rw [Expr.wellFormed_shape f, Expr.allWellFormed_shapes args]

/-- For several expressions it is up to their shapes. -/
theorem Expr.allWellFormed_shapes (es : List (Expr α)) :
    Expr.allWellFormed (Expr.shapes es) = Expr.allWellFormed es := by
  match es with
  | [] => rfl
  | e :: es =>
    rw [Expr.shapes, Expr.allWellFormed, Expr.allWellFormed, Expr.wellFormed_shape e,
      Expr.allWellFormed_shapes es]

end

/-- So it is for an expression that may be missing. -/
theorem Expr.wellFormed?_shape (e : Option (Expr α)) :
    Expr.wellFormed? (Expr.shape? e) = Expr.wellFormed? e := by
  cases e with
  | none => rfl
  | some e => exact e.wellFormed_shape

mutual

/-- A statement is well formed if its shape is. -/
theorem Stmt.wellFormed_shape (s : Stmt α) : s.shape.wellFormed = s.wellFormed := by
  match s with
  | .expr _ e => simp only [Stmt.shape, Stmt.wellFormed, Expr.wellFormed_shape]
  | .declare _ x e => simp only [Stmt.shape, Stmt.wellFormed, Expr.wellFormed?_shape]
  | .print _ args => simp only [Stmt.shape, Stmt.wellFormed, Expr.allWellFormed_shapes]
  | .block _ body =>
    simp only [Stmt.shape, Stmt.wellFormed]
    exact Stmt.allWellFormed_shapes body
  | .cond _ c t none =>
    simp only [Stmt.shape, Stmt.wellFormed, Expr.wellFormed_shape]
    rw [Stmt.allWellFormed_shapes t]
  | .cond _ c t (some branch) =>
    simp only [Stmt.shape, Stmt.wellFormed, Expr.wellFormed_shape, Stmt.isBranch_shape]
    -- the statements of a block, and what stands behind `else`
    rw [Stmt.allWellFormed_shapes t, Stmt.wellFormed_shape branch]
  | .loop _ c body =>
    simp only [Stmt.shape, Stmt.wellFormed, Expr.wellFormed_shape]
    rw [Stmt.allWellFormed_shapes body]
  | .function _ f params body =>
    simp only [Stmt.shape, Stmt.wellFormed]
    rw [Stmt.allWellFormed_shapes body]
  | .ret _ e => simp only [Stmt.shape, Stmt.wellFormed, Expr.wellFormed?_shape]
  | .breakLoop _ | .continueLoop _ => simp only [Stmt.shape, Stmt.wellFormed]

/-- For several statements it is up to their shapes. -/
theorem Stmt.allWellFormed_shapes (body : List (Stmt α)) :
    Stmt.allWellFormed (Stmt.shapes body) = Stmt.allWellFormed body := by
  match body with
  | [] => rfl
  | s :: rest =>
    rw [Stmt.shapes, Stmt.allWellFormed, Stmt.allWellFormed, Stmt.wellFormed_shape s,
      Stmt.allWellFormed_shapes rest]

end

/-! ## Formatting what was accepted -/

/-- A source text is accepted iff it is scanned and its tokens are parsed. -/
theorem parseSource_eq_ok {source : String} {p : Program Origin} :
    parseSource source = .ok p ↔ ∃ tokens, scan source = .ok tokens ∧ parse tokens = .ok p := by
  unfold parseSource
  constructor
  · intro h
    split at h
    case h_1 => exact absurd h (by simp)
    case h_2 tokens hscan =>
      split at h
      case h_1 => exact absurd h (by simp)
      case h_2 q hparse =>
        rw [← Except.ok.inj h]
        exact ⟨tokens, hscan, hparse⟩
  · rintro ⟨tokens, hscan, hparse⟩
    rw [hscan]
    simp only [hparse]

/-- **The program of an accepted source is well formed.** -/
theorem Program.wellFormed_of_parseSource {source : String} {p : Program Origin}
    (h : parseSource source = .ok p) : p.wellFormed = true := by
  obtain ⟨tokens, hscan, hparse⟩ := parseSource_eq_ok.mp h
  obtain ⟨⟨k, -, hspells⟩, hplaced⟩ := parse_sound hparse
  have hshape : Stmt.allWellFormed (Stmt.shapes p.statements) = true :=
    Statements.wellFormed hspells (scan_writable hscan)
  rw [Stmt.allWellFormed_shapes] at hshape
  exact (Bool.and_eq_true _ _).mpr ⟨hplaced, hshape⟩

/-- Reading the format of a well-formed program again. -/
theorem Program.parseSource_of_wellFormed (p : Program α) (h : p.wellFormed = true) :
    (p.nesting ≤ maxNesting → ∃ q, parseSource p.format = .ok q ∧ q.shape = p.shape) ∧
      (maxNesting < p.nesting →
        ∃ e, parseSource p.format = .error (.parse e) ∧ e.cause = .nestingTooDeep) := by
  obtain ⟨tokens, hscan, hwords⟩ := p.scan_format h
  obtain ⟨hfits, hdeep⟩ := p.parse_words h hwords
  refine ⟨fun hle => ?_, fun hlt => ?_⟩
  · obtain ⟨q, hparse, hshape⟩ := hfits hle
    exact ⟨q, parseSource_eq_ok.mpr ⟨tokens, hscan, hparse⟩, hshape⟩
  · obtain ⟨e, hparse, hcause⟩ := hdeep hlt
    refine ⟨e, ?_, hcause⟩
    rw [parseSource, hscan]
    simp only [hparse]

/-- **Formatting what was accepted**: the format is accepted exactly if its nesting is within the
    bound.  Then it has the same shape and the same format again; else it is refused for its nesting
    and for nothing else. -/
theorem parseSource_format {source : String} {p : Program Origin}
    (h : parseSource source = .ok p) :
    (p.nesting ≤ maxNesting →
        ∃ q, parseSource p.format = .ok q ∧ q.shape = p.shape ∧ q.format = p.format) ∧
      (maxNesting < p.nesting →
        ∃ e, parseSource p.format = .error (.parse e) ∧ e.cause = .nestingTooDeep) := by
  obtain ⟨hfits, hdeep⟩ := p.parseSource_of_wellFormed (Program.wellFormed_of_parseSource h)
  refine ⟨fun hle => ?_, hdeep⟩
  obtain ⟨q, hparse, hshape⟩ := hfits hle
  refine ⟨q, hparse, hshape, ?_⟩
  rw [← q.format_shape, hshape, p.format_shape]

/-- A source without blanks gets them, and stays as it is from then on. -/
theorem parseSource_format_spaced : ∃ p, parseSource "let x=(1+2)*-y" = .ok p ∧
    ∃ q, parseSource p.format = .ok q ∧ q.shape = p.shape ∧
      q.format = "let x = (1 + 2) * -y\n" := by
  have hrun : (parseSource "let x=(1+2)*-y").toOption.map (fun p => (p.nesting, p.format))
      = some (2, "let x = (1 + 2) * -y\n") := by decide +kernel
  cases hp : parseSource "let x=(1+2)*-y" with
  | error e => rw [hp] at hrun; exact absurd hrun (by simp [Except.toOption])
  | ok p =>
    rw [hp] at hrun
    obtain ⟨hnesting, hformat⟩ := Prod.mk.inj (Option.some.inj hrun)
    obtain ⟨q, hq, hshape, hsame⟩ := (parseSource_format hp).1 (by rw [hnesting]; decide)
    exact ⟨p, rfl, q, hq, hshape, hsame.trans hformat⟩

/-- A sum in parentheses, and as many signs in the summand after it as the bound leaves room for. -/
def groupedSum : String := "(a + b) + " ++ String.ofList (List.replicate 99 '-') ++ "x"

/-- Without its parentheses the sum is one chain of two links, and the signs are one level
    deeper. -/
theorem parseSource_format_groupedSum : ∃ p, parseSource groupedSum = .ok p ∧
    p.nesting = maxNesting + 1 ∧ ¬∃ q, parseSource p.format = .ok q := by
  have hrun : (parseSource groupedSum).toOption.map Program.nesting = some 101 := by
    decide +kernel
  cases hp : parseSource groupedSum with
  | error e => rw [hp] at hrun; exact absurd hrun (by simp [Except.toOption])
  | ok p =>
    rw [hp] at hrun
    have hnesting : p.nesting = 101 := Option.some.inj hrun
    obtain ⟨-, hdeep⟩ := p.parseSource_of_wellFormed (Program.wellFormed_of_parseSource hp)
    obtain ⟨e, he, -⟩ := hdeep (by rw [hnesting]; decide)
    refine ⟨p, rfl, hnesting, ?_⟩
    rintro ⟨q, hq⟩
    rw [he] at hq
    exact absurd hq (by simp)

end Scriptlet
