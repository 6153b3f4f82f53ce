/-
  Legibility: how the text of an outline is read.

  1. **Headings** (`Heading.append_inj`) — a heading ends at the first line feed or parenthesis that
     is not inside quotes, so it is told apart from what follows.
  2. **The crux (`Outline.write_inj`)** — the parts below a heading end at the parenthesis that closes
     it.  By induction over outlines, a text is that of one outline only.
  3. **Trees** (`Program.legible_outline`) — this holds of the outlines of all trees whose names are
     words and whose floats have a text of their own.  `Program.isLegible` is a Boolean, so it can be
     run on a tree.
-/
import Scriptlet.Proofs.Layout.Scanning
import Scriptlet.Tree.Outline

namespace Scriptlet

open Scan (isName takeWhile_append_of_head)

variable {α : Type}

/-- What satisfies `p` in front of what does not start with it is told apart from it. -/
theorem append_inj_of_head {p : Char → Bool} {l l' rest rest' : List Char}
    (hl : ∀ c ∈ l, p c = true) (hl' : ∀ c ∈ l', p c = true)
    (hrest : ∀ c ∈ rest.head?, p c = false) (hrest' : ∀ c ∈ rest'.head?, p c = false)
    (h : l ++ rest = l' ++ rest') : l = l' ∧ rest = rest' := by
  have hlead : l = l' := by
    rw [← takeWhile_append_of_head hl hrest, h, takeWhile_append_of_head hl' hrest']
  subst hlead
  exact ⟨rfl, List.append_cancel_left h⟩

/-! ## Headings -/

/-- Whether a character neither ends a heading nor opens a quoted text. -/
def isPlain (c : Char) : Bool := c != '\n' && c != ')' && c != '"'

/-- Plain characters, and behind them perhaps a quoted text. -/
inductive Heading : List Char → Prop
  | plain {lead : List Char} (hlead : ∀ c ∈ lead, isPlain c = true) : Heading lead
  | quoted {lead : List Char} (hlead : ∀ c ∈ lead, isPlain c = true) (text : List Char) :
    Heading (lead ++ Text.quote text)

/-- A line feed or a closing parenthesis comes next. -/
def Closing (rest : List Char) : Prop := ∃ c more, rest = c :: more ∧ (c = '\n' ∨ c = ')')

/-- What closes a node is no plain character, so plain characters end in front of it. -/
theorem Closing.not_plain {rest : List Char} (h : Closing rest) :
    ∀ c ∈ rest.head?, isPlain c = false := by
  obtain ⟨c, more, rfl, rfl | rfl⟩ := h
  · intro c hc
    cases hc
    rfl
  · intro c hc
    cases hc
    rfl

/-- A quoted text starts with its quotation mark, which is not plain. -/
theorem quote_not_plain (text rest : List Char) :
    ∀ c ∈ (Text.quote text ++ rest).head?, isPlain c = false := by
  intro c hc
  cases hc
  rfl

/-- Where a node closes, no quoted text comes next. -/
theorem Closing.ne_quote {rest : List Char} (h : Closing rest) (text rest' : List Char) :
    rest ≠ Text.quote text ++ rest' := by
  obtain ⟨c, more, rfl, rfl | rfl⟩ := h
  · intro h
    exact absurd (List.cons.inj h).1 (by decide)
  · intro h
    exact absurd (List.cons.inj h).1 (by decide)

/-- A quoted text is told apart from what follows, whatever characters it has. -/
theorem quote_append_inj {text text' rest rest' : List Char}
    (h : Text.quote text ++ rest = Text.quote text' ++ rest') : text = text' ∧ rest = rest' := by
  have hbody : text.flatMap Text.escape ++ '"' :: rest =
      text'.flatMap Text.escape ++ '"' :: rest' := by
    simpa [Text.quote] using h
  have hread : Text.readBody (text.flatMap Text.escape ++ '"' :: rest) = _ :=
    Scan.readBody_escape text
  rw [hbody, Scan.readBody_escape] at hread
  obtain ⟨rfl, -⟩ := Text.QuotedBody.closed.inj hread
  exact ⟨rfl, List.append_cancel_left h⟩

/-- **A heading ends where it ends**: it is told apart from what follows. -/
theorem Heading.append_inj {heading heading' rest rest' : List Char} (hh : Heading heading)
    (hh' : Heading heading') (hrest : Closing rest) (hrest' : Closing rest')
    (h : heading ++ rest = heading' ++ rest') : heading = heading' ∧ rest = rest' := by
  rcases hh with ⟨hlead⟩ | ⟨hlead, text⟩ <;> rcases hh' with ⟨hlead'⟩ | ⟨hlead', text'⟩
  · exact append_inj_of_head hlead hlead' hrest.not_plain hrest'.not_plain h
  · rw [List.append_assoc] at h
    obtain ⟨-, h⟩ := append_inj_of_head hlead hlead' hrest.not_plain (quote_not_plain text' rest') h
    exact absurd h (hrest.ne_quote text' rest')
  · rw [List.append_assoc] at h
    obtain ⟨-, h⟩ := append_inj_of_head hlead hlead' (quote_not_plain text rest) hrest'.not_plain h
    exact absurd h.symm (hrest'.ne_quote text rest)
  · rw [List.append_assoc, List.append_assoc] at h
    obtain ⟨rfl, hquote⟩ := append_inj_of_head hlead hlead' (quote_not_plain text rest)
      (quote_not_plain text' rest') h
    obtain ⟨rfl, rfl⟩ := quote_append_inj hquote
    exact ⟨rfl, rfl⟩

namespace Outline

/-- Every heading can be told apart from what follows. -/
inductive Legible : Outline → Prop
  | node {heading : String} {parts : List Outline} (hheading : Heading heading.toList)
    (hparts : ∀ o ∈ parts, o.Legible) : Legible (.node heading parts)

/-- Behind a heading the parts begin, on lines of their own, or the node closes. -/
theorem closing_writeParts (depth : Nat) (parts : List Outline) (rest : List Char) :
    Closing (writeParts depth parts (')' :: rest)) := by
  cases parts with
  | nil => exact ⟨')', rest, rfl, .inr rfl⟩
  | cons part parts => exact ⟨'\n', _, rfl, .inl rfl⟩

mutual

/-- **An outline is told apart from what follows it.** -/
theorem write_inj (depth : Nat) (o o' : Outline) (ho : o.Legible) (ho' : o'.Legible)
    {rest rest' : List Char} (h : o.write depth rest = o'.write depth rest') :
    o = o' ∧ rest = rest' := by
  obtain ⟨heading, parts⟩ := o
  obtain ⟨heading', parts'⟩ := o'
  obtain ⟨hheading, hparts⟩ := ho
  obtain ⟨hheading', hparts'⟩ := ho'
  rw [write, write, List.append_assoc, List.append_assoc] at h
  have h := (List.cons.inj (List.append_cancel_left h)).2
  obtain ⟨hsame, h⟩ := hheading.append_inj hheading' (closing_writeParts _ parts rest)
    (closing_writeParts _ parts' rest') h
  obtain ⟨rfl, rfl⟩ := writeParts_inj (depth + 1) parts parts' hparts hparts' h
  rw [String.toList_inj.mp hsame]
  exact ⟨rfl, rfl⟩

/-- The parts of a node are told apart from the parenthesis that closes it. -/
theorem writeParts_inj (depth : Nat) (parts parts' : List Outline) (hparts : ∀ o ∈ parts, o.Legible)
    (hparts' : ∀ o ∈ parts', o.Legible) {rest rest' : List Char}
    (h : writeParts depth parts (')' :: rest) = writeParts depth parts' (')' :: rest')) :
    parts = parts' ∧ rest = rest' := by
  match parts, parts' with
  | [], [] => exact ⟨rfl, (List.cons.inj h).2⟩
  | [], _ :: _ => exact absurd (List.cons.inj h).1 (by decide)
  | _ :: _, [] => exact absurd (List.cons.inj h).1 (by decide)
  | part :: parts, part' :: parts' =>
    obtain ⟨hpart, hrest⟩ := List.forall_mem_cons.mp hparts
    obtain ⟨hpart', hrest'⟩ := List.forall_mem_cons.mp hparts'
    obtain ⟨hfirst, hothers⟩ := write_inj depth part part' hpart hpart' (List.cons.inj h).2
    obtain ⟨hsame, hbehind⟩ := writeParts_inj depth parts parts' hrest hrest' hothers
    exact ⟨by rw [hfirst, hsame], hbehind⟩

end

/-- **Legible outlines of one text are equal.** -/
theorem text_inj {o o' : Outline} (ho : o.Legible) (ho' : o'.Legible) (h : o.text = o'.text) :
    o = o' := by
  unfold text at h
  exact (write_inj 0 o o' ho ho' (String.ofList_injective h)).1

end Outline

/-! ## Legible trees -/

/-- Whether the text of a literal is no other's: a float only if finite and without a sign. -/
def Literal.isLegible : Literal → Bool
  | .float x => x.isFinite && !x.isNegative
  | _ => true

mutual

/-- Whether all names of an expression are words, and all its literals legible. -/
def Expr.isLegible : Expr α → Bool
  | .literal _ v => v.isLegible
  | .name _ x => isName x
  | .unary _ _ e => e.isLegible
  | .operation _ _ l r => l.isLegible && r.isLegible
  | .assign _ x e => isName x && e.isLegible
  | .call _ f args => f.isLegible && Expr.allLegible args

/-- `Expr.isLegible` for every expression of a list. -/
def Expr.allLegible : List (Expr α) → Bool
  | [] => true
  | e :: es => e.isLegible && Expr.allLegible es

end

/-- `Expr.isLegible` for an expression that may be missing. -/
def Expr.isLegible? : Option (Expr α) → Bool
  | none => true
  | some e => e.isLegible

mutual

/-- Whether all names of a statement are words, and all its literals legible. -/
def Stmt.isLegible : Stmt α → Bool
  | .expr _ e => e.isLegible
  | .declare _ x e => isName x && Expr.isLegible? e
  | .print _ args => Expr.allLegible args
  | .block _ body => Stmt.allLegible body
  | .cond _ c t none => c.isLegible && Stmt.allLegible t
  | .cond _ c t (some branch) => c.isLegible && Stmt.allLegible t && branch.isLegible
  | .loop _ c body => c.isLegible && Stmt.allLegible body
  | .function _ f params body => isName f && params.all isName && Stmt.allLegible body
  | .ret _ e => Expr.isLegible? e
  | .breakLoop _ | .continueLoop _ => true

/-- `Stmt.isLegible` for every statement of a list. -/
def Stmt.allLegible : List (Stmt α) → Bool
  | [] => true
  | s :: rest => s.isLegible && Stmt.allLegible rest

end

/-- Whether all names of a program are words, and all its literals legible. -/
def Program.isLegible (p : Program α) : Bool := Stmt.allLegible p.statements

/-! ## Their headings -/

/-- All characters of the text are plain. -/
def Plain (text : String) : Prop := text.toList.all isPlain = true

instance (text : String) : Decidable (Plain text) :=
  inferInstanceAs (Decidable (text.toList.all isPlain = true))

/-- Plain texts, character by character. -/
theorem plain_iff {text : String} : Plain text ↔ ∀ c ∈ text.toList, isPlain c = true :=
  List.all_eq_true

/-- Plain texts may be put one behind the other. -/
theorem Plain.append {a b : String} (ha : Plain a) (hb : Plain b) : Plain (a ++ b) := by
  unfold Plain at ha hb ⊢
  rw [String.toList_append, List.all_append, ha, hb]
  rfl

/-- A plain text is a heading without a quoted text. -/
theorem Plain.heading {text : String} (h : Plain text) : Heading text.toList :=
  .plain (plain_iff.mp h)

/-- What holds of a character, but not of the three that are not plain, makes it plain. -/
theorem isPlain_of {p : Char → Bool} {c : Char} (h : p c = true)
    (hp : ['\n', ')', '"'].all (fun d => !p d) = true) : isPlain c = true := by
  have hne : ∀ d ∈ ['\n', ')', '"'], c ≠ d := by
    rintro d hd rfl
    have hnot := List.all_eq_true.mp hp c hd
    rw [h] at hnot
    exact absurd hnot Bool.false_ne_true
  unfold isPlain
  rw [bne_iff_ne.mpr (hne '\n' (by decide)), bne_iff_ne.mpr (hne ')' (by decide)),
    bne_iff_ne.mpr (hne '"' (by decide))]
  rfl

theorem isWordPart_of_isName {x : String} (h : isName x = true) :
    ∀ c ∈ x.toList, Scan.isWordPart c = true := by
  obtain ⟨c, cs, hx, hc, hcs, -⟩ := Scan.isName_cases h
  rw [hx]
  refine List.forall_mem_cons.mpr ⟨?_, hcs⟩
  unfold Scan.isWordPart
  rw [show (c == '_' || Text.isLetter c) = true from hc]
  rfl

/-- A name is plain: it consists of letters, digits and underscores. -/
theorem plain_of_isName {x : String} (h : isName x = true) : Plain x :=
  plain_iff.mpr fun c hc => isPlain_of (isWordPart_of_isName h c hc) (by decide)

/-- The heading that lists parameters is plain. -/
theorem plain_params {params : List String} (h : params.all isName = true) :
    Plain (String.join ("params" :: params.map (" " ++ ·))) := by
  have hblank : Plain " " := by decide
  have hword : Plain "params" := by decide
  refine plain_iff.mpr fun c hc => ?_
  rw [String.toList_join, List.flatMap_cons, List.flatMap_map, List.mem_append] at hc
  rcases hc with hc | hc
  · exact plain_iff.mp hword c hc
  · obtain ⟨x, hx, hc⟩ := List.mem_flatMap.mp hc
    have hname := plain_of_isName (List.all_eq_true.mp h x hx)
    exact plain_iff.mp (hblank.append hname) c hc

/-- The text of an integer is plain: digits, and perhaps a sign. -/
theorem plain_integer (n : Int64) : Plain (Integer.text n) := by
  have hminus : Plain "-" := by decide
  have hnat : ∀ m : Nat, Plain m.repr := by
    intro m
    refine plain_iff.mpr fun c hc => ?_
    rw [Nat.toList_repr] at hc
    exact isPlain_of (Decimal.isDigit_of_mem_digitsOfNat hc) (by decide)
  rw [Integer.text, Int.toString_eq_repr, Int.repr_eq_if]
  split
  · exact hnat _
  · exact hminus.append (hnat _)

/-- A legible float is written as a literal that is read as this float. -/
theorem Literal.isFloatLiteral {x : Binary64} (h : (Literal.float x).isLegible = true) :
    Decimal.IsFloatLiteral (Decimal.floatText x).toList x := by
  simp only [isLegible, Bool.and_eq_true, Bool.not_eq_true'] at h
  exact Decimal.floatText_isFloatLiteral h.1 h.2

/-- The text of a legible float is plain: digits around a point. -/
theorem plain_float {x : Binary64} (h : (Literal.float x).isLegible = true) :
    Plain (Decimal.floatText x) := by
  obtain ⟨whole, places, htext, -, hwhole, -, hplaces, -⟩ := Literal.isFloatLiteral h
  refine plain_iff.mpr fun c hc => ?_
  rw [htext, List.mem_append, List.mem_cons] at hc
  rcases hc with hc | rfl | hc
  · exact isPlain_of (hwhole c hc) (by decide)
  · rfl
  · exact isPlain_of (hplaces c hc) (by decide)

/-- The heading of an operation is plain. -/
theorem plain_operator (op : Operator) : Plain s!"{op.family} {op.symbol.text}" := by
  rcases op with (_ | _) | (_ | _) | (_ | _ | _ | _) | (_ | _ | _ | _ | _) <;> decide

/-- The heading of a unary operation is plain. -/
theorem plain_unary (op : UnaryOp) : Plain s!"unary {op.symbol.text}" := by
  cases op <;> decide

/-- The heading of a legible literal is one: only a string is quoted in it. -/
theorem Literal.heading_legible {v : Literal} (h : v.isLegible = true) :
    Heading v.heading.toList := by
  cases v with
  | nil =>
    have hplain : Plain "nil" := by decide
    exact hplain.heading
  | bool b =>
    have hplain : Plain s!"bool {boolText b}" := by cases b <;> decide
    exact hplain.heading
  | integer n =>
    have hplain : Plain "int " := by decide
    exact (hplain.append (plain_integer n)).heading
  | float x =>
    have hplain : Plain "float " := by decide
    exact (hplain.append (plain_float h)).heading
  | str s =>
    have hplain : Plain "string " := by decide
    -- the text stands quoted behind the word
    show Heading ("string " ++ String.ofList (Text.quote s.toList)).toList
    have htext : ("string " ++ String.ofList (Text.quote s.toList)).toList =
        "string ".toList ++ Text.quote s.toList := by
      rw [String.toList_append, @String.toList_ofList (Text.quote s.toList)]
    rw [htext]
    exact .quoted (plain_iff.mp hplain) s.toList

/-- A word in front of a name. -/
theorem heading_name {word x : String} (hword : Plain word) (hx : isName x = true) :
    Heading (word ++ x).toList := (hword.append (plain_of_isName hx)).heading

/-- A heading without parts is legible. -/
theorem Outline.legible_leaf {heading : String} (h : Heading heading.toList) :
    (Outline.leaf heading).Legible := .node h (List.forall_mem_nil _)

/-- A node whose heading is a word. -/
theorem Outline.legible_word {word : String} {parts : List Outline} (hword : Plain word)
    (hparts : ∀ o ∈ parts, o.Legible) : (Outline.node word parts).Legible :=
  .node hword.heading hparts

mutual

/-- **The outline of a legible expression is legible.** -/
theorem Expr.legible_outline (e : Expr α) (h : e.isLegible = true) : e.outline.Legible := by
  cases e with
  | literal _ v => exact Outline.legible_leaf (Literal.heading_legible h)
  | name _ x => exact Outline.legible_leaf (heading_name (by decide) h)
  | unary _ op e =>
    exact .node (plain_unary op).heading (List.forall_mem_singleton.mpr (e.legible_outline h))
  | operation _ op l r =>
    -- the operands are the parts of the node
    obtain ⟨hl, hr⟩ := Bool.and_eq_true_iff.mp h
    refine .node (plain_operator op).heading (List.forall_mem_cons.mpr ⟨l.legible_outline hl, ?_⟩)
    exact List.forall_mem_singleton.mpr (r.legible_outline hr)
  | assign _ x e =>
    obtain ⟨hx, he⟩ := Bool.and_eq_true_iff.mp h
    exact .node (heading_name (by decide) hx) (List.forall_mem_singleton.mpr (e.legible_outline he))
  | call _ f args =>
    obtain ⟨hf, hargs⟩ := Bool.and_eq_true_iff.mp h
    refine Outline.legible_word (by decide) (List.forall_mem_cons.mpr ⟨f.legible_outline hf, ?_⟩)
    exact List.forall_mem_singleton.mpr
      (Outline.legible_word (by decide) (Expr.legible_outlines args hargs))

/-- So are those of several expressions. -/
theorem Expr.legible_outlines (es : List (Expr α)) (h : Expr.allLegible es = true) :
    ∀ o ∈ Expr.outlines es, o.Legible := by
  cases es with
  | nil => exact List.forall_mem_nil _
  | cons e es =>
    obtain ⟨he, hes⟩ := Bool.and_eq_true_iff.mp h
    exact List.forall_mem_cons.mpr ⟨e.legible_outline he, Expr.legible_outlines es hes⟩

end

mutual

/-- **The outline of a legible statement is legible.** -/
theorem Stmt.legible_outline (s : Stmt α) (h : s.isLegible = true) : s.outline.Legible := by
  match s with
  | .expr _ e => exact e.legible_outline h
  | .declare _ x none =>
    exact Outline.legible_leaf (heading_name (by decide) (Bool.and_eq_true_iff.mp h).1)
  -- the value is the part of the node, if there is one
  | .declare _ x (some e) =>
    obtain ⟨hx, he⟩ := Bool.and_eq_true_iff.mp h
    exact .node (heading_name (by decide) hx) (List.forall_mem_singleton.mpr (e.legible_outline he))
  | .print _ args => exact Outline.legible_word (by decide) (Expr.legible_outlines args h)
  | .block _ body => exact Outline.legible_word (by decide) (Stmt.legible_outlines body h)
  | .cond _ c t none =>
    obtain ⟨hc, ht⟩ := Bool.and_eq_true_iff.mp h
    refine Outline.legible_word (by decide) (List.forall_mem_cons.mpr ⟨c.legible_outline hc, ?_⟩)
    exact List.forall_mem_singleton.mpr
      (Outline.legible_word (by decide) (Stmt.legible_outlines t ht))
  | .cond _ c t (some branch) =>
    obtain ⟨hct, hbranch⟩ := Bool.and_eq_true_iff.mp h
    obtain ⟨hc, ht⟩ := Bool.and_eq_true_iff.mp hct
    -- the condition, the block, and what stands behind `else`
    refine Outline.legible_word (by decide) (List.forall_mem_cons.mpr ⟨c.legible_outline hc, ?_⟩)
    refine List.forall_mem_cons.mpr
      ⟨Outline.legible_word (by decide) (Stmt.legible_outlines t ht), ?_⟩
    exact List.forall_mem_singleton.mpr
      (Outline.legible_word (by decide) (List.forall_mem_singleton.mpr (branch.legible_outline hbranch)))
  | .loop _ c body =>
    obtain ⟨hc, hbody⟩ := Bool.and_eq_true_iff.mp h
    refine Outline.legible_word (by decide) (List.forall_mem_cons.mpr ⟨c.legible_outline hc, ?_⟩)
    exact List.forall_mem_singleton.mpr
      (Outline.legible_word (by decide) (Stmt.legible_outlines body hbody))
  | .function _ f params body =>
    obtain ⟨hnames, hbody⟩ := Bool.and_eq_true_iff.mp h
    obtain ⟨hf, hparams⟩ := Bool.and_eq_true_iff.mp hnames
    -- the parameters are a part of their own, in front of the body
    refine .node (heading_name (by decide) hf) (List.forall_mem_cons.mpr ⟨?_, ?_⟩)
    · exact Outline.legible_leaf (plain_params hparams).heading
    · exact List.forall_mem_singleton.mpr
        (Outline.legible_word (by decide) (Stmt.legible_outlines body hbody))
  | .ret _ none => exact Outline.legible_word (by decide) (List.forall_mem_nil _)
  | .ret _ (some e) =>
    exact Outline.legible_word (by decide) (List.forall_mem_singleton.mpr (e.legible_outline h))
  | .breakLoop _ => exact Outline.legible_word (by decide) (List.forall_mem_nil _)
  | .continueLoop _ => exact Outline.legible_word (by decide) (List.forall_mem_nil _)

/-- So are those of several statements. -/
theorem Stmt.legible_outlines (body : List (Stmt α)) (h : Stmt.allLegible body = true) :
    ∀ o ∈ Stmt.outlines body, o.Legible := by
  match body with
  | [] => exact List.forall_mem_nil _
  | s :: rest =>
    obtain ⟨hs, hrest⟩ := Bool.and_eq_true_iff.mp h
    exact List.forall_mem_cons.mpr ⟨s.legible_outline hs, Stmt.legible_outlines rest hrest⟩

end

/-- **The outline of a program with legible names and literals is legible.** -/
theorem Program.legible_outline {p : Program α} (h : p.isLegible = true) : p.outline.Legible :=
  Outline.legible_word (by decide) (Stmt.legible_outlines p.statements h)

end Scriptlet
