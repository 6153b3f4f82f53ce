/-
  Faithful outlines: the text of an outline tells the shape of the tree, and nothing else.

  1. **Kinds** (`Stmt.kind?_outline`) — the first word of a heading tells which node it stands for.
  2. **Details** — what follows the first word tells the name, operator, literal or parameters: the
     text of an integer, of a finite float without a sign and of a string is no other's.
  3. **Inversion** (`Expr.eq_unary_of_outline_eq`, …) — one lemma for each kind of node: a tree with
     the outline of such a node is one, with the same details and with parts of the same outlines.
  4. **The crux (`Stmt.shape_eq_of_outline_eq`)** — by induction over trees, an outline is that of
     one shape only.
  5. **The result (`Program.outline_text_eq_iff`)** — the outlines of two programs read the same
     just if the programs have the same shape.
-/
import Mathlib
import Scriptlet.Proofs.Grammar.Derivation
import Scriptlet.Proofs.Token.Lexeme
import Scriptlet.Proofs.Tree.Legibility
import Scriptlet.Proofs.Tree.Shape
import Scriptlet.Value

namespace Scriptlet

open Scan (isName)

variable {α β : Type}

/-! ## Reading headings -/

/-- What a heading says about an expression. -/
inductive ExprKind where
  | literal (type : ValueType)
  | name | unary | operation | assign | call

/-- What a heading says about a statement. -/
inductive StmtKind where
  | expr (kind : ExprKind)
  | declare | print | block | cond | loop | function | ret | breakLoop | continueLoop

/-- The kind of statement that the first word of a heading stands for. -/
def StmtKind.ofWord? : String → Option StmtKind
  | "nil" => some (.expr (.literal .nil))
  | "bool" => some (.expr (.literal .bool))
  | "int" => some (.expr (.literal .int))
  | "float" => some (.expr (.literal .float))
  | "string" => some (.expr (.literal .string))
  | "var" => some (.expr .name)
  | "unary" => some (.expr .unary)
  | "logical" | "binary" => some (.expr .operation)
  | "assign" => some (.expr .assign)
  | "call" => some (.expr .call)
  | "let" => some .declare
  | "print" => some .print
  | "block" => some .block
  | "if" => some .cond
  | "while" => some .loop
  | "fn" => some .function
  | "return" => some .ret
  | "break" => some .breakLoop
  | "continue" => some .continueLoop
  | _ => none

/-- The characters of a heading up to the first blank. -/
def firstWord (heading : String) : String :=
  String.ofList (heading.toList.takeWhile (· != ' '))

/-- The kind of node that an outline is of, told by its heading alone. -/
def Outline.kind? : Outline → Option StmtKind
  | .node heading _ => StmtKind.ofWord? (firstWord heading)

/-- What the heading of an expression ought to say. -/
def Expr.kind : Expr α → ExprKind
  | .literal _ v => .literal v.value.type
  | .name _ _ => .name
  | .unary _ _ _ => .unary
  | .operation _ _ _ _ => .operation
  | .assign _ _ _ => .assign
  | .call _ _ _ => .call

/-- What the heading of a statement ought to say; an expression as a statement has no heading of
    its own. -/
def Stmt.kind : Stmt α → StmtKind
  | .expr _ e => .expr e.kind
  | .declare _ _ _ => .declare
  | .print _ _ => .print
  | .block _ _ => .block
  | .cond _ _ _ _ => .cond
  | .loop _ _ _ => .loop
  | .function _ _ _ _ => .function
  | .ret _ _ => .ret
  | .breakLoop _ => .breakLoop
  | .continueLoop _ => .continueLoop

/-- A blank in the lead ends the first word. -/
theorem firstWord_append {lead : String}
    (hlead : (lead.toList.takeWhile (· != ' ')).length ≠ lead.toList.length) (x : String) :
    firstWord (lead ++ x) = firstWord lead := by
  rw [firstWord, firstWord, String.toList_append, List.takeWhile_append, if_neg hlead]

/-- The lead of a heading, up to a blank, tells the kind, whatever comes behind. -/
theorem kind?_of_lead {lead : String} {kind : StmtKind} (x : String) (parts : List Outline)
    (hlead : (lead.toList.takeWhile (· != ' ')).length ≠ lead.toList.length)
    (hkind : StmtKind.ofWord? (firstWord lead) = some kind) :
    (Outline.node (lead ++ x) parts).kind? = some kind := by
  rw [Outline.kind?, firstWord_append hlead, hkind]

/-- The heading of a literal tells its type. -/
theorem Literal.kind?_heading (v : Literal) (parts : List Outline) :
    (Outline.node v.heading parts).kind? = some (.expr (.literal v.value.type)) := by
  cases v with
  | nil => rfl
  | bool b => exact kind?_of_lead (boolText b) parts (by decide) rfl
  | integer n => exact kind?_of_lead (Integer.text n) parts (by decide) rfl
  | float x => exact kind?_of_lead (Decimal.floatText x) parts (by decide) rfl
  | str s => exact kind?_of_lead (Literal.str s).text parts (by decide) rfl

/-- The family of an operator, and a blank. -/
def Operator.lead : Operator → String
  | .logical _ => "logical "
  | .binary _ => "binary "

/-- The lead is the word for the family and the blank behind it. -/
theorem Operator.lead_eq (op : Operator) : op.family ++ " " = op.lead := by
  cases op <;> rfl

theorem Operator.lead_blank (op : Operator) :
    (op.lead.toList.takeWhile (· != ' ')).length ≠ op.lead.toList.length := by
  rcases op with op | op
  · exact (by decide : ("logical ".toList.takeWhile (· != ' ')).length ≠ "logical ".toList.length)
  · exact (by decide : ("binary ".toList.takeWhile (· != ' ')).length ≠ "binary ".toList.length)

theorem Operator.kind_lead (op : Operator) :
    StmtKind.ofWord? (firstWord op.lead) = some (.expr .operation) := by
  rcases op with op | op
  · exact (rfl : StmtKind.ofWord? (firstWord "logical ") = some (.expr .operation))
  · exact (rfl : StmtKind.ofWord? (firstWord "binary ") = some (.expr .operation))

/-- **The outline of an expression tells its kind.** -/
theorem Expr.kind?_outline (e : Expr α) : e.outline.kind? = some (.expr e.kind) := by
  cases e with
  | literal _ v => exact v.kind?_heading []
  | name _ x => exact kind?_of_lead x [] (by decide) rfl
  | unary _ op e => exact kind?_of_lead op.symbol.text [e.outline] (by decide) rfl
  | operation _ op l r =>
    show (Outline.node (op.family ++ " " ++ op.symbol.text) [l.outline, r.outline]).kind? = _
    rw [op.lead_eq]
    exact kind?_of_lead op.symbol.text [l.outline, r.outline] op.lead_blank op.kind_lead
  | assign _ x e => exact kind?_of_lead x [e.outline] (by decide) rfl
  | call _ f args => rfl

/-- **The outline of a statement tells its kind.** -/
theorem Stmt.kind?_outline (s : Stmt α) : s.outline.kind? = some s.kind := by
  match s with
  | .expr _ e => exact e.kind?_outline
  | .declare _ x none => exact kind?_of_lead x [] (by decide) rfl
  | .declare _ x (some e) => exact kind?_of_lead x [e.outline] (by decide) rfl
  | .function _ f params body => exact kind?_of_lead f _ (by decide) rfl
  | .print _ args => rfl
  | .block _ body => rfl
  | .cond _ c t none => rfl
  | .cond _ c t (some branch) => rfl
  | .loop _ c body => rfl
  | .ret _ none => rfl
  | .ret _ (some e) => rfl
  | .breakLoop _ => rfl
  | .continueLoop _ => rfl

/-- Statements with one outline are of one kind. -/
theorem Stmt.kind_eq_of_outline_eq {s : Stmt α} {s' : Stmt β} (h : s.outline = s'.outline) :
    s.kind = s'.kind := by
  have hkind := s.kind?_outline
  rw [h, s'.kind?_outline] at hkind
  exact (Option.some.inj hkind).symm

/-- Expressions with one outline are of one kind. -/
theorem Expr.kind_eq_of_outline_eq {e : Expr α} {e' : Expr β} (h : e.outline = e'.outline) :
    e.kind = e'.kind := by
  have hkind := e.kind?_outline
  rw [h, e'.kind?_outline] at hkind
  exact (StmtKind.expr.inj (Option.some.inj hkind)).symm

/-! ## Reading what follows the first word -/

/-- An integer is told by its text. -/
theorem Integer.text_inj {n n' : Int64} (h : Integer.text n = Integer.text n') : n = n' :=
  Int64.toInt_inj.mp (Int.repr_injective h)

/-- A text is the literal of one float: the point tells the whole part from the places. -/
theorem Decimal.IsFloatLiteral.unique {text : List Char} {x x' : Binary64}
    (h : IsFloatLiteral text x) (h' : IsFloatLiteral text x') : x = x' := by
  obtain ⟨whole, places, rfl, -, hwhole, -, -, rfl⟩ := h
  obtain ⟨whole', places', htext, -, hwhole', -, -, rfl⟩ := h'
  have hpoint : ∀ places : List Char, ∀ c ∈ ('.' :: places).head?, c.isDigit = false := by
    intro places c hc
    cases hc
    rfl
  obtain ⟨rfl, hplaces⟩ := append_inj_of_head hwhole hwhole' (hpoint _) (hpoint _) htext
  rw [(List.cons.inj hplaces).2]

/-- Legible literals of one type with one heading are the same. -/
theorem Literal.eq_of_heading_eq {v v' : Literal} (h : v.isLegible = true)
    (h' : v'.isLegible = true) (htype : v.value.type = v'.value.type)
    (hheading : v.heading = v'.heading) : v = v' := by
  -- literals of different types are told apart by the type in the heading
  cases v <;> cases v' <;> first | cases htype; done | skip
  case nil.nil => rfl
  case bool.bool b b' =>
    have htext : boolText b = boolText b' := (String.append_right_inj "bool ").mp hheading
    cases b <;> cases b' <;> first | rfl | exact absurd htext (by decide)
  case integer.integer n n' =>
    rw [Integer.text_inj ((String.append_right_inj "int ").mp hheading)]
  case float.float x x' =>
    have htext : Decimal.floatText x = Decimal.floatText x' :=
      (String.append_right_inj "float ").mp hheading
    -- both floats are what their common text is read as
    have hliteral := Literal.isFloatLiteral h
    rw [htext] at hliteral
    rw [hliteral.unique (Literal.isFloatLiteral h')]
  case str.str s s' =>
    -- what is quoted is told from its quotation
    have htext := String.ofList_injective ((String.append_right_inj "string ").mp hheading)
    rw [String.toList_inj.mp (quote_append_inj (congrArg (· ++ []) htext)).1]

/-- The family and the symbol tell the operator. -/
theorem Operator.eq_of_heading_eq {op op' : Operator}
    (h : op.family ++ " " ++ op.symbol.text = op'.family ++ " " ++ op'.symbol.text) : op = op' := by
  rw [op.lead_eq, op'.lead_eq] at h
  have hlead : op.lead = op'.lead := by
    have hword := congrArg firstWord h
    rw [firstWord_append op.lead_blank, firstWord_append op'.lead_blank] at hword
    rcases op with op | op <;> rcases op' with op' | op'
    · rfl
    · exact absurd hword (by decide : firstWord "logical " ≠ firstWord "binary ")
    · exact absurd hword (by decide : firstWord "binary " ≠ firstWord "logical ")
    · rfl
  rw [hlead] at h
  have hsymbol := String.ofList_injective ((String.append_right_inj _).mp h)
  exact Operator.symbol_inj (Scan.Symbol.chars_injective hsymbol)

/-- The symbol tells the sign. -/
theorem UnaryOp.eq_of_heading_eq {op op' : UnaryOp}
    (h : "unary " ++ op.symbol.text = "unary " ++ op'.symbol.text) : op = op' := by
  have hsymbol := (String.append_right_inj "unary ").mp h
  cases op <;> cases op' <;> first | rfl | exact absurd hsymbol (by decide)

/-- Names have no blanks, so blanks in front of each tell them apart. -/
theorem names_inj {names names' : List String} (h : names.all isName = true)
    (h' : names'.all isName = true) (htext : names.flatMap (fun x => ' ' :: x.toList) =
      names'.flatMap fun x => ' ' :: x.toList) : names = names' := by
  -- a name ends before the next blank
  have hblank : ∀ x, isName x = true → ∀ c ∈ x.toList, (c != ' ') = true := by
    intro x hx c hc
    refine bne_iff_ne.mpr ?_
    rintro rfl
    exact absurd (isWordPart_of_isName hx ' ' hc) (by decide)
  -- the next name starts with one
  have hhead : ∀ rest : List String, ∀ c ∈ (rest.flatMap fun x => ' ' :: x.toList).head?,
      (c != ' ') = false := by
    intro rest c hc
    cases rest with
    | nil => exact nomatch hc
    | cons x rest =>
      cases hc
      rfl
  induction names generalizing names' with
  | nil =>
    cases names' with
    | nil => rfl
    | cons x' rest' => exact nomatch htext
  | cons x rest ih =>
    cases names' with
    | nil => exact nomatch htext
    | cons x' rest' =>
      obtain ⟨hx, hrest⟩ := Bool.and_eq_true_iff.mp h
      obtain ⟨hx', hrest'⟩ := Bool.and_eq_true_iff.mp h'
      rw [List.flatMap_cons, List.flatMap_cons] at htext
      obtain ⟨hsame, hothers⟩ := append_inj_of_head (hblank x hx) (hblank x' hx') (hhead rest)
        (hhead rest') (List.cons.inj htext).2
      rw [String.toList_inj.mp hsame, ih hrest hrest' hothers]

/-- Lists of parameters are told by their heading. -/
theorem params_inj {params params' : List String} (h : params.all isName = true)
    (h' : params'.all isName = true)
    (hheading : String.join ("params" :: params.map (" " ++ ·)) =
      String.join ("params" :: params'.map (" " ++ ·))) : params = params' := by
  have hblank : ∀ x : String, (" " ++ x).toList = ' ' :: x.toList := by
    intro x
    rw [String.toList_append]
    rfl
  have htext := congrArg String.toList hheading
  rw [String.toList_join, String.toList_join, List.flatMap_cons, List.flatMap_cons,
    List.flatMap_map, List.flatMap_map] at htext
  simp only [hblank] at htext
  exact names_inj h h' (List.append_cancel_left htext)

/-! ## Inversion: expressions -/

namespace Expr

variable {a : α} {e' : Expr β}

/-- Only a literal of the same value has the outline of a literal. -/
theorem eq_literal_of_outline_eq {v : Literal} (h : v.isLegible = true)
    (h' : e'.isLegible = true) (heq : (literal a v).outline = e'.outline) :
    ∃ b, e' = literal b v := by
  have hkind := kind_eq_of_outline_eq heq
  cases e' with
  | literal b v' =>
    have htype := ExprKind.literal.inj hkind
    have hsame := Literal.eq_of_heading_eq h h' htype (Outline.node.inj heq).1
    exact ⟨b, congrArg _ hsame.symm⟩
  | _ => cases hkind

/-- Only the same name has the outline of a name. -/
theorem eq_name_of_outline_eq {x : String} (heq : (name a x).outline = e'.outline) :
    ∃ b, e' = name b x := by
  have hkind := kind_eq_of_outline_eq heq
  cases e' with
  | name b x' =>
    have hname : x = x' := (String.append_right_inj "var ").mp (Outline.node.inj heq).1
    exact ⟨b, congrArg _ hname.symm⟩
  | _ => cases hkind

/-- Only the same sign, over an operand with the same outline. -/
theorem eq_unary_of_outline_eq {op : UnaryOp} {e : Expr α}
    (heq : (unary a op e).outline = e'.outline) :
    ∃ b d, e' = unary b op d ∧ e.outline = d.outline := by
  have hkind := kind_eq_of_outline_eq heq
  cases e' with
  | unary b op' d =>
    obtain ⟨hheading, hparts⟩ := Outline.node.inj heq
    obtain rfl := UnaryOp.eq_of_heading_eq hheading
    exact ⟨b, d, rfl, (List.cons.inj hparts).1⟩
  | _ => cases hkind

/-- Only the same operator, over operands with the same outlines. -/
theorem eq_operation_of_outline_eq {op : Operator} {l r : Expr α}
    (heq : (operation a op l r).outline = e'.outline) :
    ∃ b c d, e' = operation b op c d ∧ l.outline = c.outline ∧ r.outline = d.outline := by
  have hkind := kind_eq_of_outline_eq heq
  cases e' with
  | operation b op' c d =>
    obtain ⟨hheading, hparts⟩ := Outline.node.inj heq
    obtain rfl := Operator.eq_of_heading_eq hheading
    obtain ⟨hleft, hparts⟩ := List.cons.inj hparts
    exact ⟨b, c, d, rfl, hleft, (List.cons.inj hparts).1⟩
  | _ => cases hkind

/-- Only an assignment to the same name, of a value with the same outline. -/
theorem eq_assign_of_outline_eq {x : String} {e : Expr α}
    (heq : (assign a x e).outline = e'.outline) :
    ∃ b d, e' = assign b x d ∧ e.outline = d.outline := by
  have hkind := kind_eq_of_outline_eq heq
  cases e' with
  | assign b x' d =>
    obtain ⟨hheading, hparts⟩ := Outline.node.inj heq
    have hname : x = x' := (String.append_right_inj "assign ").mp hheading
    exact ⟨b, d, hname ▸ rfl, (List.cons.inj hparts).1⟩
  | _ => cases hkind

/-- Only a call, whose callee and arguments have the same outlines. -/
theorem eq_call_of_outline_eq {f : Expr α} {args : List (Expr α)}
    (heq : (call a f args).outline = e'.outline) :
    ∃ b g vs, e' = call b g vs ∧ f.outline = g.outline ∧ outlines args = outlines vs := by
  have hkind := kind_eq_of_outline_eq heq
  cases e' with
  | call b g vs =>
    obtain ⟨hcallee, hparts⟩ := List.cons.inj (Outline.node.inj heq).2
    have hlist := (List.cons.inj hparts).1
    exact ⟨b, g, vs, rfl, hcallee, (Outline.node.inj hlist).2⟩
  | _ => cases hkind

end Expr

/-! ## Reading outlines: expressions -/

mutual

/-- **An outline is that of one shape of expression only.** -/
theorem Expr.shape_eq_of_outline_eq (e : Expr α) (e' : Expr β) (h : e.isLegible = true)
    (h' : e'.isLegible = true) (heq : e.outline = e'.outline) : e.shape = e'.shape := by
  -- the kind of the other expression follows from the outline, and its parts with it
  cases e with
  | literal _ v =>
    obtain ⟨b, rfl⟩ := eq_literal_of_outline_eq h h' heq
    rfl
  | name _ x =>
    obtain ⟨b, rfl⟩ := eq_name_of_outline_eq heq
    rfl
  | unary _ op e =>
    obtain ⟨b, d, rfl, hoperand⟩ := eq_unary_of_outline_eq heq
    rw [shape, shape, e.shape_eq_of_outline_eq d h h' hoperand]
  | operation _ op l r =>
    obtain ⟨b, c, d, rfl, hleft, hright⟩ := eq_operation_of_outline_eq heq
    obtain ⟨hl, hr⟩ := Bool.and_eq_true_iff.mp h
    obtain ⟨hc, hd⟩ := Bool.and_eq_true_iff.mp h'
    rw [shape, shape, l.shape_eq_of_outline_eq c hl hc hleft,
      r.shape_eq_of_outline_eq d hr hd hright]
  | assign _ x e =>
    obtain ⟨b, d, rfl, hvalue⟩ := eq_assign_of_outline_eq heq
    obtain ⟨-, he⟩ := Bool.and_eq_true_iff.mp h
    obtain ⟨-, hd⟩ := Bool.and_eq_true_iff.mp h'
    rw [shape, shape, e.shape_eq_of_outline_eq d he hd hvalue]
  | call _ f args =>
    obtain ⟨b, g, vs, rfl, hcallee, hlist⟩ := eq_call_of_outline_eq heq
    obtain ⟨hf, hargs⟩ := Bool.and_eq_true_iff.mp h
    obtain ⟨hg, hvs⟩ := Bool.and_eq_true_iff.mp h'
    rw [shape, shape, f.shape_eq_of_outline_eq g hf hg hcallee,
      Expr.shapes_eq_of_outlines_eq args vs hargs hvs hlist]

/-- The same of several expressions, one by one. -/
theorem Expr.shapes_eq_of_outlines_eq (es : List (Expr α)) (es' : List (Expr β))
    (h : Expr.allLegible es = true) (h' : Expr.allLegible es' = true)
    (heq : Expr.outlines es = Expr.outlines es') : Expr.shapes es = Expr.shapes es' := by
  cases es with
  | nil =>
    cases es' with
    | nil => rfl
    | cons e' es' => cases heq
  | cons e es =>
    cases es' with
    | nil => cases heq
    | cons e' es' =>
      obtain ⟨he, hes⟩ := Bool.and_eq_true_iff.mp h
      obtain ⟨he', hes'⟩ := Bool.and_eq_true_iff.mp h'
      obtain ⟨hfirst, hothers⟩ := List.cons.inj heq
      rw [shapes, shapes, e.shape_eq_of_outline_eq e' he he' hfirst,
        Expr.shapes_eq_of_outlines_eq es es' hes hes' hothers]

end

/-- A value that may be missing stands in the outline or not. -/
theorem Expr.shape?_eq_of_outlines_eq (e : Option (Expr α)) (e' : Option (Expr β))
    (h : Expr.isLegible? e = true) (h' : Expr.isLegible? e' = true)
    (heq : e.toList.map Expr.outline = e'.toList.map Expr.outline) :
    Expr.shape? e = Expr.shape? e' := by
  cases e with
  | none =>
    cases e' with
    | none => rfl
    | some e' => cases heq
  | some e =>
    cases e' with
    | none => cases heq
    | some e' =>
      exact congrArg some (e.shape_eq_of_outline_eq e' h h' (List.cons.inj heq).1)

/-! ## Inversion: statements -/

namespace Stmt

variable {a : α} {s' : Stmt β}

/-- The value stands in the outline if there is one. -/
theorem outline_declare (a : α) (x : String) (e : Option (Expr α)) :
    (declare a x e).outline = .node s!"let {x}" (e.toList.map Expr.outline) := by
  cases e <;> rfl

theorem outline_ret (a : α) (e : Option (Expr α)) :
    (ret a e).outline = .node "return" (e.toList.map Expr.outline) := by
  cases e <;> rfl

/-- An expression as a statement has no heading of its own, so only such a one has its outline. -/
theorem eq_expr_of_outline_eq {e : Expr α} (heq : (expr a e).outline = s'.outline) :
    ∃ b d, s' = expr b d ∧ e.outline = d.outline := by
  have hkind := kind_eq_of_outline_eq heq
  cases s' with
  | expr b d => exact ⟨b, d, rfl, heq⟩
  | _ => cases hkind

/-- Only a declaration of the same name, with or without a value alike. -/
theorem eq_declare_of_outline_eq {x : String} {e : Option (Expr α)}
    (heq : (declare a x e).outline = s'.outline) :
    ∃ b d, s' = declare b x d ∧ e.toList.map Expr.outline = d.toList.map Expr.outline := by
  have hkind := kind_eq_of_outline_eq heq
  cases s' with
  | declare b x' d =>
    rw [outline_declare, outline_declare] at heq
    obtain ⟨hheading, hparts⟩ := Outline.node.inj heq
    have hname : x = x' := (String.append_right_inj "let ").mp hheading
    exact ⟨b, d, hname ▸ rfl, hparts⟩
  | _ => cases hkind

/-- Only a `print`, whose arguments have the same outlines. -/
theorem eq_print_of_outline_eq {args : List (Expr α)}
    (heq : (print a args).outline = s'.outline) :
    ∃ b vs, s' = print b vs ∧ Expr.outlines args = Expr.outlines vs := by
  have hkind := kind_eq_of_outline_eq heq
  cases s' with
  | print b vs => exact ⟨b, vs, rfl, (Outline.node.inj heq).2⟩
  | _ => cases hkind

/-- Only a block, whose statements have the same outlines. -/
theorem eq_block_of_outline_eq {body : List (Stmt α)}
    (heq : (block a body).outline = s'.outline) :
    ∃ b body', s' = block b body' ∧ outlines body = outlines body' := by
  have hkind := kind_eq_of_outline_eq heq
  cases s' with
  | block b body' => exact ⟨b, body', rfl, (Outline.node.inj heq).2⟩
  | _ => cases hkind

/-- An `if` without `else`: its outline has two parts, not three. -/
theorem eq_cond_of_outline_eq {c : Expr α} {t : List (Stmt α)}
    (heq : (cond a c t none).outline = s'.outline) :
    ∃ b c' t', s' = cond b c' t' none ∧ c.outline = c'.outline ∧ outlines t = outlines t' := by
  have hkind := kind_eq_of_outline_eq heq
  cases s' with
  | cond b c' t' branch' =>
    cases branch' with
    | none =>
      obtain ⟨hcondition, hparts⟩ := List.cons.inj (Outline.node.inj heq).2
      have hthen := (List.cons.inj hparts).1
      exact ⟨b, c', t', rfl, hcondition, (Outline.node.inj hthen).2⟩
    | some branch' => cases (List.cons.inj (List.cons.inj (Outline.node.inj heq).2).2).2
  | _ => cases hkind

/-- An `if` with `else`: the third part is the outline of the branch. -/
theorem eq_condElse_of_outline_eq {c : Expr α} {t : List (Stmt α)} {branch : Stmt α}
    (heq : (cond a c t (some branch)).outline = s'.outline) :
    ∃ b c' t' branch', s' = cond b c' t' (some branch') ∧ c.outline = c'.outline ∧
      outlines t = outlines t' ∧ branch.outline = branch'.outline := by
  have hkind := kind_eq_of_outline_eq heq
  cases s' with
  | cond b c' t' branch' =>
    cases branch' with
    | none => cases (List.cons.inj (List.cons.inj (Outline.node.inj heq).2).2).2
    | some branch' =>
      obtain ⟨hcondition, hparts⟩ := List.cons.inj (Outline.node.inj heq).2
      obtain ⟨hthen, hparts⟩ := List.cons.inj hparts
      obtain ⟨-, helse⟩ := Outline.node.inj (List.cons.inj hparts).1
      exact ⟨b, c', t', branch', rfl, hcondition, (Outline.node.inj hthen).2,
        (List.cons.inj helse).1⟩
  | _ => cases hkind

/-- Only a loop, whose condition and body have the same outlines. -/
theorem eq_loop_of_outline_eq {c : Expr α} {body : List (Stmt α)}
    (heq : (loop a c body).outline = s'.outline) :
    ∃ b c' body', s' = loop b c' body' ∧ c.outline = c'.outline ∧
      outlines body = outlines body' := by
  have hkind := kind_eq_of_outline_eq heq
  cases s' with
  | loop b c' body' =>
    obtain ⟨hcondition, hparts⟩ := List.cons.inj (Outline.node.inj heq).2
    have hturn := (List.cons.inj hparts).1
    exact ⟨b, c', body', rfl, hcondition, (Outline.node.inj hturn).2⟩
  | _ => cases hkind

/-- The parameters stand in a heading of their own, and are told apart by the blanks between. -/
theorem eq_function_of_outline_eq {f : String} {params : List String} {body : List (Stmt α)}
    (h : (function a f params body).isLegible = true) (h' : s'.isLegible = true)
    (heq : (function a f params body).outline = s'.outline) :
    ∃ b body', s' = function b f params body' ∧ outlines body = outlines body' := by
  have hkind := kind_eq_of_outline_eq heq
  cases s' with
  | function b f' params' body' =>
    obtain ⟨-, hparams⟩ := Bool.and_eq_true_iff.mp (Bool.and_eq_true_iff.mp h).1
    obtain ⟨-, hparams'⟩ := Bool.and_eq_true_iff.mp (Bool.and_eq_true_iff.mp h').1
    obtain ⟨hheading, hparts⟩ := Outline.node.inj heq
    obtain ⟨hlist, hparts⟩ := List.cons.inj hparts
    have hrun := (List.cons.inj hparts).1
    have hname : f = f' := (String.append_right_inj "fn ").mp hheading
    have hnames := params_inj hparams hparams' (Outline.node.inj hlist).1
    exact ⟨b, body', hname ▸ hnames ▸ rfl, (Outline.node.inj hrun).2⟩
  | _ => cases hkind

/-- Only a `return`, with or without a value alike. -/
theorem eq_ret_of_outline_eq {e : Option (Expr α)} (heq : (ret a e).outline = s'.outline) :
    ∃ b d, s' = ret b d ∧ e.toList.map Expr.outline = d.toList.map Expr.outline := by
  have hkind := kind_eq_of_outline_eq heq
  cases s' with
  | ret b d =>
    rw [outline_ret, outline_ret] at heq
    exact ⟨b, d, rfl, (Outline.node.inj heq).2⟩
  | _ => cases hkind

theorem eq_breakLoop_of_outline_eq (heq : (breakLoop a).outline = s'.outline) :
    ∃ b, s' = breakLoop b := by
  have hkind := kind_eq_of_outline_eq heq
  cases s' with
  | breakLoop b => exact ⟨b, rfl⟩
  | _ => cases hkind

theorem eq_continueLoop_of_outline_eq (heq : (continueLoop a).outline = s'.outline) :
    ∃ b, s' = continueLoop b := by
  have hkind := kind_eq_of_outline_eq heq
  cases s' with
  | continueLoop b => exact ⟨b, rfl⟩
  | _ => cases hkind

end Stmt

/-! ## Reading outlines: statements -/

mutual

/-- **An outline is that of one shape of statement only.** -/
theorem Stmt.shape_eq_of_outline_eq (s : Stmt α) (s' : Stmt β) (h : s.isLegible = true)
    (h' : s'.isLegible = true) (heq : s.outline = s'.outline) : s.shape = s'.shape := by
  -- the kind of the other statement follows from the outline, and its parts with it
  cases s with
  | expr _ e =>
    obtain ⟨b, d, rfl, hvalue⟩ := eq_expr_of_outline_eq heq
    rw [shape, shape, e.shape_eq_of_outline_eq d h h' hvalue]
  | declare _ x e =>
    obtain ⟨b, d, rfl, hvalue⟩ := eq_declare_of_outline_eq heq
    obtain ⟨-, he⟩ := Bool.and_eq_true_iff.mp h
    obtain ⟨-, hd⟩ := Bool.and_eq_true_iff.mp h'
    rw [shape, shape, Expr.shape?_eq_of_outlines_eq e d he hd hvalue]
  | print _ args =>
    obtain ⟨b, vs, rfl, hlist⟩ := eq_print_of_outline_eq heq
    rw [shape, shape, Expr.shapes_eq_of_outlines_eq args vs h h' hlist]
  | block _ body =>
    obtain ⟨b, body', rfl, hbody⟩ := eq_block_of_outline_eq heq
    rw [shape, shape, Stmt.shapes_eq_of_outlines_eq body body' h h' hbody]
  | cond _ c t branch =>
    cases branch with
    -- with no branch on one side there is none on the other
    | none =>
      obtain ⟨b, c', t', rfl, hcondition, hthen⟩ := eq_cond_of_outline_eq heq
      obtain ⟨hc, ht⟩ := Bool.and_eq_true_iff.mp h
      obtain ⟨hc', ht'⟩ := Bool.and_eq_true_iff.mp h'
      rw [shape, shape, c.shape_eq_of_outline_eq c' hc hc' hcondition,
        Stmt.shapes_eq_of_outlines_eq t t' ht ht' hthen]
    | some branch =>
      obtain ⟨b, c', t', branch', rfl, hcondition, hthen, helse⟩ := eq_condElse_of_outline_eq heq
      obtain ⟨hct, hbranch⟩ := Bool.and_eq_true_iff.mp h
      obtain ⟨hct', hbranch'⟩ := Bool.and_eq_true_iff.mp h'
      obtain ⟨hc, ht⟩ := Bool.and_eq_true_iff.mp hct
      obtain ⟨hc', ht'⟩ := Bool.and_eq_true_iff.mp hct'
      rw [shape, shape, c.shape_eq_of_outline_eq c' hc hc' hcondition,
        Stmt.shapes_eq_of_outlines_eq t t' ht ht' hthen,
        branch.shape_eq_of_outline_eq branch' hbranch hbranch' helse]
  | loop _ c body =>
    obtain ⟨b, c', body', rfl, hcondition, hbody⟩ := eq_loop_of_outline_eq heq
    obtain ⟨hc, hlegible⟩ := Bool.and_eq_true_iff.mp h
    obtain ⟨hc', hlegible'⟩ := Bool.and_eq_true_iff.mp h'
    rw [shape, shape, c.shape_eq_of_outline_eq c' hc hc' hcondition,
      Stmt.shapes_eq_of_outlines_eq body body' hlegible hlegible' hbody]
  | function _ f params body =>
    obtain ⟨b, body', rfl, hbody⟩ := eq_function_of_outline_eq h h' heq
    obtain ⟨-, hlegible⟩ := Bool.and_eq_true_iff.mp h
    obtain ⟨-, hlegible'⟩ := Bool.and_eq_true_iff.mp h'
    rw [shape, shape, Stmt.shapes_eq_of_outlines_eq body body' hlegible hlegible' hbody]
  | ret _ e =>
    obtain ⟨b, d, rfl, hvalue⟩ := eq_ret_of_outline_eq heq
    rw [shape, shape, Expr.shape?_eq_of_outlines_eq e d h h' hvalue]
  | breakLoop _ =>
    obtain ⟨b, rfl⟩ := eq_breakLoop_of_outline_eq heq
    rfl
  | continueLoop _ =>
    obtain ⟨b, rfl⟩ := eq_continueLoop_of_outline_eq heq
    rfl

/-- The same of several statements, one by one. -/
theorem Stmt.shapes_eq_of_outlines_eq (body : List (Stmt α)) (body' : List (Stmt β))
    (h : Stmt.allLegible body = true) (h' : Stmt.allLegible body' = true)
    (heq : Stmt.outlines body = Stmt.outlines body') : Stmt.shapes body = Stmt.shapes body' := by
  cases body with
  | nil =>
    cases body' with
    | nil => rfl
    | cons s' rest' => cases heq
  | cons s rest =>
    cases body' with
    | nil => cases heq
    | cons s' rest' =>
      obtain ⟨hs, hrest⟩ := Bool.and_eq_true_iff.mp h
      obtain ⟨hs', hrest'⟩ := Bool.and_eq_true_iff.mp h'
      obtain ⟨hfirst, hothers⟩ := List.cons.inj heq
      rw [shapes, shapes, s.shape_eq_of_outline_eq s' hs hs' hfirst,
        Stmt.shapes_eq_of_outlines_eq rest rest' hrest hrest' hothers]

end

/-! ## Outlines show the shape only -/

mutual

/-- The outline of an expression is that of its shape. -/
theorem Expr.outline_shape (e : Expr α) : e.shape.outline = e.outline := by
  cases e with
  | literal _ v => rfl
  | name _ x => rfl
  | unary _ op e => rw [shape, outline, outline, e.outline_shape]
  | operation _ op l r => rw [shape, outline, outline, l.outline_shape, r.outline_shape]
  | assign _ x e => rw [shape, outline, outline, e.outline_shape]
  | call _ f args => rw [shape, outline, outline, f.outline_shape, Expr.outlines_shapes args]

theorem Expr.outlines_shapes (es : List (Expr α)) :
    Expr.outlines (Expr.shapes es) = Expr.outlines es := by
  cases es with
  | nil => rfl
  | cons e es => rw [shapes, outlines, outlines, e.outline_shape, Expr.outlines_shapes es]

end

mutual

/-- The outline of a statement is that of its shape. -/
theorem Stmt.outline_shape (s : Stmt α) : s.shape.outline = s.outline := by
  match s with
  | .expr _ e => exact e.outline_shape
  | .declare _ x none => rfl
  | .declare _ x (some e) => rw [shape, Expr.shape?, outline, outline, e.outline_shape]
  | .print _ args => rw [shape, outline, outline, Expr.outlines_shapes args]
  | .block _ body => rw [shape, outline, outline, Stmt.outlines_shapes body]
  | .cond _ c t none => rw [shape, outline, outline, c.outline_shape, Stmt.outlines_shapes t]
  | .cond _ c t (some branch) =>
    rw [shape, outline, outline, c.outline_shape, Stmt.outlines_shapes t, branch.outline_shape]
  | .loop _ c body => rw [shape, outline, outline, c.outline_shape, Stmt.outlines_shapes body]
  | .function _ f params body => rw [shape, outline, outline, Stmt.outlines_shapes body]
  | .ret _ none => rfl
  | .ret _ (some e) => rw [shape, Expr.shape?, outline, outline, e.outline_shape]
  | .breakLoop _ => rfl
  | .continueLoop _ => rfl

theorem Stmt.outlines_shapes (body : List (Stmt α)) :
    Stmt.outlines (Stmt.shapes body) = Stmt.outlines body := by
  match body with
  | [] => rfl
  | s :: rest => rw [shapes, outlines, outlines, s.outline_shape, Stmt.outlines_shapes rest]

end

/-- The outline of a program is that of its shape. -/
theorem Program.outline_shape (p : Program α) : p.shape.outline = p.outline :=
  congrArg (Outline.node "program") (Stmt.outlines_shapes p.statements)

/-! ## The result -/

/-- **Outlines are faithful.**  If the names of two programs are words that are read as identifiers,
    and their floats are finite and without a sign, then the texts of their outlines are equal just
    if the programs are, but for the notes. -/
theorem Program.outline_text_eq_iff (p : Program α) (q : Program β) (hp : p.isLegible = true)
    (hq : q.isLegible = true) : p.outline.text = q.outline.text ↔ p.shape = q.shape := by
  constructor
  · intro h
    have houtline := Outline.text_inj (legible_outline hp) (legible_outline hq) h
    obtain ⟨-, hparts⟩ := Outline.node.inj houtline
    exact congrArg Program.mk
      (Stmt.shapes_eq_of_outlines_eq p.statements q.statements hp hq hparts)
  · intro h
    rw [← p.outline_shape, ← q.outline_shape, h]

/-- Without escapes, the outline of the second program would read as that of the first: its one
    string has the lines of two.  The third is the first one with other notes. -/
theorem Program.outline_text_eq_iff_strings :
    let two : Program Unit :=
      ⟨[.print () [.name () "x", .literal () (.str "a"), .literal () (.str "b")]]⟩
    let one : Program Unit :=
      ⟨[.print () [.name () "x", .literal () (.str "a\")\n    (string \"b")]]⟩
    let noted : Program Nat :=
      ⟨[.print 1 [.name 2 "x", .literal 3 (.str "a"), .literal 4 (.str "b")]]⟩
    two.outline.text ≠ one.outline.text ∧ two.outline.text = noted.outline.text := by
  intro two one noted
  have htwo : two.isLegible = true := by decide
  constructor
  · intro h
    have hshape := (outline_text_eq_iff two one htwo (by decide)).mp h
    simp [two, one, shape, Stmt.shapes, Stmt.shape, Expr.shapes] at hshape
  · exact (outline_text_eq_iff two noted htwo (by decide)).mpr rfl

end Scriptlet
