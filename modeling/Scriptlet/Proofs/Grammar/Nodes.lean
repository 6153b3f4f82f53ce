/-
  Nodes: how the token ranges of a parsed tree lie.

  1. **Nodes** — expressions and statements alike, each with its `children` in the order they are
     written.  `Program.Has` reaches every node of a program from the top.
  2. **Step** (`Node.Fits.children`) — the children of a node that fits between two positions fit
     one after the other inside its own range.
  3. **Run** (`Node.fits_of_has`) — so every node of a parsed program fits in the token list, by
     induction on the way to it.
  4. **The result** (`parse_ranges_nest`) — what fitting says of the ranges, put in their own terms:
     none is empty, children lie inside their parent, siblings are in order and share no token.
-/
import Scriptlet.Proofs.Grammar.Ranges

namespace Scriptlet

variable {α : Type}

/-! ## Nodes -/

/-- A node of a program tree. -/
inductive Node (α : Type) where
  | expr (e : Expr α)
  | stmt (s : Stmt α)

namespace Node

/-- The note of a node. -/
def note : Node α → α
  | expr e => e.note
  | stmt s => s.note

/-- The nodes right below a node, in the order they are written. -/
def children : Node α → List (Node α)
  | expr (.literal _ _) | expr (.name _ _) => []
  | expr (.unary _ _ e) | expr (.assign _ _ e) => [expr e]
  | expr (.operation _ _ l r) => [expr l, expr r]
  | expr (.call _ f args) => expr f :: args.map expr
  | stmt (.expr _ e) => [expr e]
  | stmt (.declare _ _ e) | stmt (.ret _ e) => e.toList.map expr
  | stmt (.print _ args) => args.map expr
  | stmt (.block _ body) | stmt (.function _ _ _ body) => body.map stmt
  | stmt (.cond _ c t alternative) => expr c :: t.map stmt ++ alternative.toList.map stmt
  | stmt (.loop _ c body) => expr c :: body.map stmt
  | stmt (.breakLoop _) | stmt (.continueLoop _) => []

/-- Whether a node is a literal or a name. -/
def isLeaf : Node α → Bool
  | expr (.literal _ _) | expr (.name _ _) => true
  | _ => false

/-- Whether a node is a statement. -/
def isStmt : Node α → Bool
  | stmt _ => true
  | expr _ => false

end Node

/-- The nodes of a program: its top-level statements, and the children of its nodes. -/
inductive Program.Has (p : Program α) : Node α → Prop
  | top {s : Stmt α} (h : s ∈ p.statements) : Has p (.stmt s)
  | child {parent n : Node α} (hparent : Has p parent) (h : n ∈ parent.children) : Has p n

/-! ## What the ranges are to satisfy -/

/-- One node ends before the other starts. -/
def Node.Before (a b : Node Origin) : Prop := a.note.stop ≤ b.note.start

/-- The range of a node is in order with the token list and with the ranges of its children. -/
structure Node.InOrder (tokens : List Token) (n : Node Origin) : Prop where
  nonempty : n.note.start < n.note.stop
  stop_le : n.note.stop ≤ tokens.length
  inside : ∀ c ∈ n.children, n.note.start ≤ c.note.start ∧ c.note.stop ≤ n.note.stop
  siblings : n.children.Pairwise Node.Before
  /-- A literal or a name is a single token. -/
  leaf : n.isLeaf = true → n.note.stop = n.note.start + 1
  /-- The place of a node is that of a token in its range. -/
  span : ∃ i, n.note.start ≤ i ∧ i < n.note.stop ∧
    (tokens[i]?).map Token.span = some n.note.span
  /-- The place of a statement is that of its first token. -/
  first : n.isStmt = true → (tokens[n.note.start]?).map Token.span = some n.note.span

/-! ## Nodes that fit -/

/-- A node lies between two positions, with all its parts in order. -/
def Node.Fits (tokens : List Token) (lo hi : Nat) : Node Origin → Prop
  | .expr e => e.Fits tokens lo hi
  | .stmt s => s.Fits tokens lo hi

section Row

variable {β γ : Type} {R : Nat → Nat → β → Prop} {lo mid hi : Nat}

theorem Row.map {S : Nat → Nat → γ → Prop} (f : β → γ) (hf : ∀ lo hi b, R lo hi b → S lo hi (f b))
    {bs : List β} (h : Row R lo hi bs) : Row S lo hi (bs.map f) := by
  induction bs generalizing lo with
  | nil => exact h
  | cons b bs ih =>
    obtain ⟨mid, hb, hbs⟩ := h
    exact ⟨mid, hf lo mid b hb, ih hbs⟩

theorem row_singleton {b : β} (h : R lo hi b) : Row R lo hi [b] := ⟨hi, h, Nat.le_refl hi⟩

/-- One row after the other. -/
theorem Row.append (hR : Widens R) {bs bs' : List β} (h : Row R lo mid bs)
    (h' : Row R mid hi bs') : Row R lo hi (bs ++ bs') := by
  induction bs generalizing lo with
  | nil => exact h'.mono hR h (Nat.le_refl hi)
  | cons b bs ih =>
    obtain ⟨m, hb, hbs⟩ := h
    exact ⟨m, hb, ih hbs⟩

end Row

section Fits

variable {tokens : List Token} {lo hi : Nat}

theorem Node.widens_fits (tokens : List Token) : Widens (Node.Fits tokens) := by
  intro lo lo' hi hi' n h hlo hhi
  cases n with
  | expr e => exact Expr.Fits.mono h hlo hhi
  | stmt s => exact Stmt.Fits.mono h hlo hhi

theorem Node.Fits.sits {n : Node Origin} (h : n.Fits tokens lo hi) :
    ∃ i, n.note.Sits tokens lo hi i := by
  cases n with
  | expr e => exact Expr.Fits.sits h
  | stmt s => exact ⟨_, Stmt.Fits.sits h⟩

/-- The items of a row lie between its ends, each before the next. -/
theorem Node.row_inside {ns : List (Node Origin)} (h : Row (Node.Fits tokens) lo hi ns) :
    (∀ n ∈ ns, lo ≤ n.note.start ∧ n.note.stop ≤ hi) ∧ ns.Pairwise Node.Before := by
  induction ns generalizing lo with
  | nil => exact ⟨fun _ hn => absurd hn List.not_mem_nil, .nil⟩
  | cons n ns ih =>
    obtain ⟨mid, hn, hns⟩ := h
    obtain ⟨hinside, hordered⟩ := ih hns
    obtain ⟨i, hsits⟩ := hn.sits
    have hlo := hsits.lo_le
    have hlt := hsits.lt
    have hstop := hsits.stop_le
    have hle : mid ≤ hi := hns.le fun _ _ _ hfits => Nat.le_of_lt hfits.sits.choose_spec.lt
    refine ⟨List.forall_mem_cons.mpr ⟨⟨hlo, by omega⟩, fun m hm => ?_⟩, ?_⟩
    · obtain ⟨hm, hm'⟩ := hinside m hm
      exact ⟨by omega, hm'⟩
    · refine List.pairwise_cons.mpr ⟨fun m hm => ?_, hordered⟩
      exact Nat.le_trans hstop (hinside m hm).1

theorem Expr.AllFit.row {es : List (Expr Origin)} (h : Expr.AllFit tokens lo hi es) :
    Row (Node.Fits tokens) lo hi (es.map Node.expr) :=
  (Expr.allFit_iff.mp h).map Node.expr fun _ _ _ he => he

theorem Stmt.AllFit.row {body : List (Stmt Origin)} (h : Stmt.AllFit tokens lo hi body) :
    Row (Node.Fits tokens) lo hi (body.map Node.stmt) :=
  (Stmt.allFit_iff.mp h).map Node.stmt fun _ _ _ hs => hs

theorem Expr.Fits?.row {e : Option (Expr Origin)} (h : Expr.Fits? tokens lo hi e) (hle : lo ≤ hi) :
    Row (Node.Fits tokens) lo hi (e.toList.map Node.expr) := by
  cases e with
  | none => exact hle
  | some e => exact row_singleton h

/-- **Step**: the children of a node fit one after the other inside its range. -/
theorem Node.Fits.children {n : Node Origin} (h : n.Fits tokens lo hi) :
    Row (Node.Fits tokens) n.note.start n.note.stop n.children := by
  obtain ⟨i, hsits⟩ := h.sits
  have hlt : n.note.start < n.note.stop := Nat.lt_of_le_of_lt hsits.start_le hsits.lt_stop
  -- the children fit from the first place of the node on
  have wider {a : Nat} {ns : List (Node Origin)} (hns : Row (Node.Fits tokens) a n.note.stop ns)
      (ha : n.note.start ≤ a) : Row (Node.Fits tokens) n.note.start n.note.stop ns :=
    hns.mono (Node.widens_fits tokens) ha (Nat.le_refl _)
  match n with
  | .expr (.literal _ _) | .expr (.name _ _) => exact Nat.le_of_lt hlt
  | .expr (.unary _ _ _) => exact wider (row_singleton h.2) (Nat.le_succ _)
  | .expr (.assign _ _ _) =>
    obtain ⟨j, hj, he⟩ := h
    exact wider (row_singleton he) (Nat.le_succ_of_le hj.start_le)
  -- the left operand, and the right one behind the symbol
  | .expr (.operation _ _ _ _) =>
    obtain ⟨j, -, hl, hr⟩ := h
    exact ⟨j, hl, (row_singleton hr).mono (Node.widens_fits tokens) (Nat.le_succ j) (Nat.le_refl _)⟩
  -- the callee, and the arguments behind the parenthesis
  | .expr (.call _ _ _) =>
    obtain ⟨j, -, hf, hargs⟩ := h
    exact ⟨j, hf, hargs.row.mono (Node.widens_fits tokens) (Nat.le_succ j) (Nat.le_refl _)⟩
  | .stmt (.expr _ _) => exact row_singleton h.2
  | .stmt (.declare _ _ _) | .stmt (.ret _ _) =>
    exact wider (h.2.row hlt) (Nat.le_succ _)
  | .stmt (.print _ _) => exact wider h.2.row (Nat.le_succ _)
  | .stmt (.block _ _) | .stmt (.function _ _ _ _) => exact wider h.2.row (Nat.le_succ _)
  -- the condition, and the block behind it
  | .stmt (.cond _ _ _ none) =>
    obtain ⟨-, mid, hc, ht⟩ := h
    refine wider (a := _ + 1) ⟨mid, hc, ?_⟩ (Nat.le_succ _)
    exact ht.row.append (Node.widens_fits tokens) (Nat.le_refl _)
  -- and the branch behind the block
  | .stmt (.cond _ _ _ (some _)) =>
    obtain ⟨-, mid, mid', hc, ht, hbranch⟩ := h
    refine wider (a := _ + 1) ⟨mid, hc, ?_⟩ (Nat.le_succ _)
    exact ht.row.append (Node.widens_fits tokens) (row_singleton hbranch)
  | .stmt (.loop _ _ _) =>
    obtain ⟨-, mid, hc, hbody⟩ := h
    exact wider (a := _ + 1) ⟨mid, hc, hbody.row⟩ (Nat.le_succ _)
  | .stmt (.breakLoop _) | .stmt (.continueLoop _) => exact Nat.le_of_lt hlt

/-- A node that fits in the token list has its range in order. -/
theorem Node.Fits.inOrder {n : Node Origin} (h : n.Fits tokens lo hi) (hhi : hi ≤ tokens.length) :
    n.InOrder tokens := by
  obtain ⟨i, hsits⟩ := h.sits
  obtain ⟨hinside, hordered⟩ := Node.row_inside h.children
  refine ⟨Nat.lt_of_le_of_lt hsits.start_le hsits.lt_stop, Nat.le_trans hsits.stop_le hhi, hinside,
    hordered, fun hleaf => ?_, ⟨i, hsits.start_le, hsits.lt_stop, hsits.span⟩, fun hstmt => ?_⟩
  · match n with
    | .expr (.literal _ _) | .expr (.name _ _) => exact h.2
  · match n with
    | .stmt _ => exact (Stmt.Fits.sits h).span

/-- **Run**: every node of a program whose statements fit in the token list fits there as well. -/
theorem Node.fits_of_has {p : Program Origin} (h : Stmt.AllFit tokens 0 tokens.length p.statements)
    {n : Node Origin} (hn : p.Has n) : ∃ lo hi, hi ≤ tokens.length ∧ n.Fits tokens lo hi := by
  -- a member of a row fits between two positions of the row
  have member {ns : List (Node Origin)} {lo hi : Nat} (hrow : Row (Node.Fits tokens) lo hi ns)
      (hhi : hi ≤ tokens.length) {m : Node Origin} (hm : m ∈ ns) :
      ∃ lo hi, hi ≤ tokens.length ∧ m.Fits tokens lo hi := by
    induction ns generalizing lo with
    | nil => exact absurd hm List.not_mem_nil
    | cons b bs ih =>
      obtain ⟨mid, hb, hbs⟩ := hrow
      have hle : mid ≤ hi := hbs.le fun _ _ _ hfits => Nat.le_of_lt hfits.sits.choose_spec.lt
      rcases List.mem_cons.mp hm with rfl | hm
      · exact ⟨lo, mid, Nat.le_trans hle hhi, hb⟩
      · exact ih hbs hm
  induction hn with
  | top hs => exact member h.row (Nat.le_refl _) (List.mem_map_of_mem hs)
  | child _ hchild ih =>
    obtain ⟨lo, hi, hhi, hfits⟩ := ih
    exact member hfits.children (hfits.inOrder hhi).stop_le hchild

end Fits

/-! ## Parsed programs -/

/-- The statements of a parsed program fit in its token list. -/
theorem allFit_of_parse {tokens : List Token} {p : Program Origin} (h : parse tokens = .ok p) :
    Stmt.AllFit tokens 0 tokens.length p.statements := by
  by_cases hne : tokens = []
  · subst hne
    cases h
    exact Nat.le_refl 0
  · have htold := parse_told hne
    rw [h] at htold
    exact htold

/-- **Token ranges nest**: in a parsed program the range of every node is in order, and so are those
    of the top-level statements. -/
theorem parse_ranges_nest {tokens : List Token} {p : Program Origin} (h : parse tokens = .ok p) :
    (p.statements.map Node.stmt).Pairwise Node.Before ∧ ∀ n, p.Has n → n.InOrder tokens := by
  have hfits := allFit_of_parse h
  refine ⟨(Node.row_inside hfits.row).2, fun n hn => ?_⟩
  obtain ⟨lo, hi, hhi, hn⟩ := Node.fits_of_has hfits hn
  exact hn.inOrder hhi

/-- The tokens of `if x { }`, a line end, and `else { (f)(-y) }`. -/
def elseCall : List Token :=
  let word (kind : TokenKind) (text : String) (column : Nat) : Token := ⟨kind, text, ⟨1, column⟩⟩
  [word (.keyword .ifKw) "if" 1, word .identifier "x" 4, word (.symbol .leftBrace) "\x7b" 6,
   word (.symbol .rightBrace) "\x7d" 8, word .newline "\n" 9, ⟨.keyword .elseKw, "else", ⟨2, 1⟩⟩,
   ⟨.symbol .leftBrace, "\x7b", ⟨2, 6⟩⟩, ⟨.symbol .leftParen, "(", ⟨2, 8⟩⟩,
   ⟨.identifier, "f", ⟨2, 9⟩⟩, ⟨.symbol .rightParen, ")", ⟨2, 10⟩⟩,
   ⟨.symbol .leftParen, "(", ⟨2, 11⟩⟩, ⟨.symbol .minus, "-", ⟨2, 12⟩⟩,
   ⟨.identifier, "y", ⟨2, 13⟩⟩, ⟨.symbol .rightParen, ")", ⟨2, 14⟩⟩,
   ⟨.symbol .rightBrace, "\x7d", ⟨2, 16⟩⟩, ⟨.eof, "", ⟨2, 17⟩⟩]

/-- The call starts at the parenthesis, its callee at the name inside. -/
theorem parse_ranges_nest_elseCall :
    let call : Expr Origin := .call ⟨⟨2, 11⟩, 7, 14⟩ (.name ⟨⟨2, 9⟩, 8, 9⟩ "f")
      [.unary ⟨⟨2, 12⟩, 11, 13⟩ .negate (.name ⟨⟨2, 13⟩, 12, 13⟩ "y")]
    let branch : Stmt Origin := .block ⟨⟨2, 6⟩, 6, 15⟩ [.expr ⟨⟨2, 8⟩, 7, 14⟩ call]
    let p : Program Origin :=
      ⟨[.cond ⟨⟨1, 1⟩, 0, 15⟩ (.name ⟨⟨1, 4⟩, 1, 2⟩ "x") [] (some branch)]⟩
    parse elseCall = .ok p ∧ (p.statements.map Node.stmt).Pairwise Node.Before ∧
      ∀ n, p.Has n → n.InOrder elseCall := by
  intro call branch p
  have hparse : parse elseCall = .ok p := rfl
  exact ⟨hparse, parse_ranges_nest hparse⟩

end Scriptlet
