/-
  Soundness of statements: whatever the parser accepts as a statement, a block or a program, the
  grammar derives, and its `return`, `break`, `continue` and parameters satisfy the context
  conditions.

  The context conditions come from two counters.  They are read off the state in which a construct
  is parsed: a `return` is accepted only inside a function, a `break` or `continue` only inside a
  loop, and the body of a function starts with no loop around it.
-/
import Scriptlet.Proofs.Grammar.Soundness

namespace Scriptlet

namespace Grammar

variable {k : Nat} {w : Word} {ws rest : List Word} {body : List (Stmt Unit)}

/-! ## How statement lists begin -/

theorem not_isSeparator_of_startsStatement (h : w.kind.startsStatement = true) :
    ¬ IsSeparator w := by
  rintro (hk | hk) <;> rw [hk] at h <;> exact absurd h (by decide)

/-- A statement list is empty, or begins with a separator or a statement. -/
theorem Statements.head_cases (h : Statements k (w :: ws) body) :
    IsSeparator w ∨ w.kind.startsStatement = true := by
  -- what comes before the first statement, if anything, is a separator
  have key : ∀ gap ws' more : List Word, w :: ws = gap ++ ws' ++ more → Separators gap →
      StartsStatement ws' → IsSeparator w ∨ w.kind.startsStatement = true := by
    intro gap ws' more heq hgap hstart
    cases gap with
    | nil =>
      obtain ⟨v, tail, rfl, hv⟩ := hstart
      rw [(List.cons.inj heq).1]
      exact Or.inr hv
    | cons v gap =>
      rw [(List.cons.inj heq).1]
      exact Or.inl (hgap v (List.mem_cons_self ..))
  generalize hws : w :: ws = all at h
  cases h with
  | none gap hgap => exact Or.inl (hgap w (by rw [← hws]; exact List.mem_cons_self ..))
  | last gap hgap statement =>
    exact key gap _ [] (by rw [hws, List.append_nil]) hgap statement.starts
  | more gap v hgap statement _ _ => exact key gap _ _ hws hgap statement.starts

theorem Statements.nil_inv (h : Statements k [] body) : body = [] := by
  generalize hws : ([] : List Word) = all at h
  cases h with
  | none gap hgap => rfl
  | last gap hgap statement =>
    have := statement.starts.length_pos
    have := congrArg List.length hws
    simp only [List.length_nil, List.length_append] at this
    omega
  | more gap v hgap statement _ _ =>
    have := congrArg List.length hws
    simp only [List.length_nil, List.length_append, List.length_cons] at this
    omega

/-- A leading separator can be left out. -/
theorem Statements.drop_separator (hw : IsSeparator w) (h : Statements k (w :: ws) body) :
    Statements k ws body := by
  -- the separator cannot be the first word of a statement, so it belongs to the gap
  have key : ∀ gap ws' more : List Word, w :: ws = gap ++ ws' ++ more → Separators gap →
      StartsStatement ws' → ∃ gap', Separators gap' ∧ ws = gap' ++ ws' ++ more := by
    intro gap ws' more heq hgap hstart
    cases gap with
    | nil =>
      obtain ⟨v, tail, rfl, hv⟩ := hstart
      rw [(List.cons.inj heq).1] at hw
      exact absurd hw (not_isSeparator_of_startsStatement hv)
    | cons v gap =>
      exact ⟨gap, fun u hu => hgap u (List.mem_cons_of_mem v hu), (List.cons.inj heq).2⟩
  generalize hws : w :: ws = all at h
  cases h with
  | none gap hgap =>
    exact .none ws fun u hu => hgap u (by rw [← hws]; exact List.mem_cons_of_mem w hu)
  | last gap hgap statement =>
    obtain ⟨gap', hgap', heq⟩ := key gap _ [] (by rw [hws, List.append_nil]) hgap
      statement.starts
    rw [heq, List.append_nil]
    exact .last gap' hgap' statement
  | more gap v hgap statement hv others =>
    obtain ⟨gap', hgap', heq⟩ := key gap _ _ hws hgap statement.starts
    rw [heq]
    exact .more gap' v hgap' statement hv others

end Grammar

namespace Parse

open Grammar

/-! ## What is read -/

/-- A statement was read, and it satisfies the context conditions. -/
def StatementRead (s s' : State) (b : Stmt Origin) : Prop :=
  Derived (fun k ws b => Statement k ws (Stmt.shape b)) s s' b ∧
    b.wellPlaced (decide (0 < s.functions)) (decide (0 < s.loops)) = true

/-- A conditional was read, and it satisfies the context conditions. -/
def ConditionalRead (s s' : State) (b : Stmt Origin) : Prop :=
  Derived (fun k ws b => Conditional k ws (Stmt.shape b)) s s' b ∧
    b.wellPlaced (decide (0 < s.functions)) (decide (0 < s.loops)) = true

/-- A block was read, and its statements satisfy the context conditions. -/
def BlockRead (s s' : State) (body : List (Stmt Origin)) : Prop :=
  Derived (fun k ws body => Block k ws (Stmt.shapes body)) s s' body ∧
    Stmt.allWellPlaced (decide (0 < s.functions)) (decide (0 < s.loops)) body = true

/-- Statements were read up to the end, or to the brace that closes the block. -/
def StatementsRead (inBlock : Bool) (s s' : State) (body : List (Stmt Origin)) : Prop :=
  Derived (fun k ws body => Statements k ws (Stmt.shapes body)) s s' body ∧
    Stmt.allWellPlaced (decide (0 < s.functions)) (decide (0 < s.loops)) body = true ∧
    (inBlock = false → s'.words = [])

/-! ## Simple statements -/

section Simple

variable {expression : Parse (Expr Origin)} {block : Parse (List (Stmt Origin))}
variable {s s' : State} {node : Origin → Stmt Origin} {w : Word} {rest : List Word}

theorem declaration_sound (hexpr : Sound expression ExpressionRead) (hd : s.depth ≤ maxNesting)
    (hw : s.words = w :: rest) (hk : w.kind = .keyword .letKw)
    (h : declaration expression s = .ok node s') (a : Origin) : StatementRead s s' (node a) := by
  have hp1 := State.passed_next hw
  -- the name is read first
  obtain ⟨x, s₁, h1, h⟩ := bind_eq_ok.mp (show (identifier .variableName >>= fun x =>
    get >>= fun s => if s.atSymbol .assign then
      advance >>= fun _ => skipNewlines >>= fun _ => expression >>= fun e =>
        pure fun a => .declare a x (some e)
    else pure fun a => .declare a x none : Parse (Origin → Stmt Origin)) s.next = _ from h)
  obtain ⟨wx, hxk, rfl, hp2⟩ := identifier_eq_ok h1
  have hp12 := hp1.trans hp2
  change (if s₁.atSymbol .assign then
      advance >>= fun _ => skipNewlines >>= fun _ => expression >>= fun e =>
        pure fun a => .declare a wx.text (some e)
    else pure fun a => .declare a wx.text none : Parse (Origin → Stmt Origin)) s₁ = _ at h
  split at h
  · -- `=` follows: newlines, and then the value
    rename_i hassign
    obtain ⟨weq, tail, hweq, heqk⟩ := State.words_of_atSymbol hassign
    have hp3 := State.passed_next hweq
    obtain ⟨gap, hgap, hp4, -⟩ := State.passed_skipNewlines s₁.next
    have hp := (hp12.trans hp3).trans hp4
    obtain ⟨e, s₂, h2, h⟩ := bind_eq_ok.mp (show (expression >>= fun e =>
      pure fun a => .declare a wx.text (some e) : Parse (Origin → Stmt Origin))
        s₁.next.skipNewlines = _ from h)
    obtain ⟨⟨k, ws, hp5, hfit, he⟩, -⟩ := hexpr _ e s₂ (by rw [hp.depth]; exact hd) h2
    obtain ⟨rfl, rfl⟩ := pure_eq_ok h
    refine ⟨⟨k, w :: wx :: weq :: gap ++ ws, by simpa using hp.trans hp5,
      by rw [hp.depth] at hfit; exact hfit, .declareAs w wx weq gap hk hxk heqk hgap he⟩, rfl⟩
  · -- the statement ends behind the name
    obtain ⟨rfl, rfl⟩ := pure_eq_ok h
    exact ⟨⟨0, [w, wx], hp12, hd, .declare w wx hk hxk⟩, rfl⟩

theorem parameter_eq_ok {before : List String} {x : String} (h : parameter before s = .ok x s') :
    x ∉ before ∧ ∃ w : Word, w.kind = .identifier ∧ w.text = x ∧ Passed s s' [w] := by
  obtain ⟨y, s₁, h1, h⟩ := bind_eq_ok.mp (show (identifier .parameterName >>= fun x =>
    if x ∈ before then throw ⟨.duplicateParameter x, s.span⟩ else pure x : Parse String) s = _
      from h)
  split at h
  · exact absurd h (by nofun)
  · rename_i hnot
    obtain ⟨rfl, rfl⟩ := pure_eq_ok h
    exact ⟨hnot, identifier_eq_ok h1⟩

/-- Parameters in parentheses are distinct. -/
theorem parameters_sound (n : Nat) : Sound (parenList n parameter) fun s s' params =>
    params.Nodup ∧ Derived (Enclosed Parameter) s s' params := by
  refine parenList_sound ?_ List.nodup_nil ?_ n
  · intro before s x s' hd h
    obtain ⟨-, w, hk, ht, hp⟩ := parameter_eq_ok h
    exact ⟨0, [w], hp, hd, rfl, w, rfl, hk, ht⟩
  · intro before s x s' hbefore h
    obtain ⟨hnot, -⟩ := parameter_eq_ok h
    refine List.nodup_append.mpr ⟨hbefore, by simp, ?_⟩
    intro y hy z hz hyz
    rw [List.mem_singleton] at hz
    exact hnot (by rw [← hz, ← hyz]; exact hy)

/-- The body of a function is read inside one more function and no loop. -/
theorem inFunction_sound (hblock : Sound block BlockRead) (hd : s.depth ≤ maxNesting)
    {body : List (Stmt Origin)} (h : inFunction block s = .ok body s') :
    Derived (fun k ws body => Block k ws (Stmt.shapes body)) s s' body ∧
      Stmt.allWellPlaced true false body = true := by
  obtain ⟨s₁, h1, rfl⟩ := always_eq_ok (show always
    (fun s₁ : State => { s₁ with functions := s₁.functions - 1, loops := s.loops }) block
      { s with functions := s.functions + 1, loops := 0 } = _ from h)
  obtain ⟨⟨k, ws, hp, hfit, hb⟩, hwp⟩ :=
    hblock { s with functions := s.functions + 1, loops := 0 } body s₁ hd h1
  refine ⟨⟨k, ws, ⟨hp.words, hp.position, hp.depth, ?_, rfl⟩, hfit, hb⟩, ?_⟩
  · show s₁.functions - 1 = s.functions
    rw [hp.functions]
    exact Nat.add_sub_cancel ..
  · have hf : decide (0 < s.functions + 1) = true := decide_eq_true (Nat.succ_pos _)
    have hwp : Stmt.allWellPlaced (decide (0 < s.functions + 1)) (decide (0 < 0)) body = true := hwp
    rwa [hf] at hwp

/-- The body of a loop is read inside one more loop. -/
theorem inLoop_sound (hblock : Sound block BlockRead) (hd : s.depth ≤ maxNesting)
    {body : List (Stmt Origin)} (h : inLoop block s = .ok body s') :
    Derived (fun k ws body => Block k ws (Stmt.shapes body)) s s' body ∧
      Stmt.allWellPlaced (decide (0 < s.functions)) true body = true := by
  obtain ⟨s₁, h1, rfl⟩ := always_eq_ok (show always
    (fun s₁ : State => { s₁ with loops := s₁.loops - 1 }) block
      { s with loops := s.loops + 1 } = _ from h)
  obtain ⟨⟨k, ws, hp, hfit, hb⟩, hwp⟩ :=
    hblock { s with loops := s.loops + 1 } body s₁ hd h1
  refine ⟨⟨k, ws, ⟨hp.words, hp.position, hp.depth, hp.functions, ?_⟩, hfit, hb⟩, ?_⟩
  · show s₁.loops - 1 = s.loops
    rw [hp.loops]
    exact Nat.add_sub_cancel ..
  · have hl : decide (0 < s.loops + 1) = true := decide_eq_true (Nat.succ_pos _)
    have hwp : Stmt.allWellPlaced (decide (0 < s.functions)) (decide (0 < s.loops + 1)) body
        = true := hwp
    rwa [hl] at hwp

theorem definition_sound {n : Nat} (hblock : Sound block BlockRead) (hd : s.depth ≤ maxNesting)
    (hw : s.words = w :: rest) (hk : w.kind = .keyword .fnKw)
    (h : definition n block s = .ok node s') (a : Origin) : StatementRead s s' (node a) := by
  have hp1 := State.passed_next hw
  -- what the rule reads, part by part
  obtain ⟨f, s₁, h1, h⟩ := bind_eq_ok.mp (show (identifier .functionName >>= fun f =>
    expect .leftParen .leftParen >>= fun _ => parenList n parameter >>= fun params =>
      inFunction block >>= fun body => pure fun a => .function a f params body
    : Parse (Origin → Stmt Origin)) s.next = _ from h)
  obtain ⟨u, s₂, h2, h⟩ := bind_eq_ok.mp h
  obtain ⟨params, s₃, h3, h⟩ := bind_eq_ok.mp h
  obtain ⟨body, s₄, h4, h⟩ := bind_eq_ok.mp h
  obtain ⟨rfl, rfl⟩ := pure_eq_ok h
  -- the words of the parts, in order
  obtain ⟨wf, hfk, rfl, hp2⟩ := identifier_eq_ok h1
  obtain ⟨o, ho, hp3⟩ := expect_eq_ok h2
  have hp := (hp1.trans hp2).trans hp3
  obtain ⟨hnodup, k, ws, hp4, hfit, hparams⟩ := parameters_sound n s₂ params s₃
    (by rw [hp.depth]; exact hd) h3
  have hp' := hp.trans hp4
  obtain ⟨⟨k', ws', hp5, hfit', hbody⟩, hwp⟩ := inFunction_sound hblock
    (by rw [hp'.depth]; exact hd) h4
  -- no part lies deeper than the limit, so the whole statement does not
  rw [hp.depth] at hfit
  rw [hp'.depth] at hfit'
  refine ⟨⟨max k k', w :: wf :: o :: ws ++ ws', by simpa using hp'.trans hp5, by omega,
    .function w wf o hk hfk ho hparams hbody⟩, ?_⟩
  -- the body was read in the context of a function
  show (decide params.Nodup && Stmt.allWellPlaced true false body) = true
  rw [decide_eq_true hnodup, hwp]
  rfl

theorem whileLoop_sound (hexpr : Sound expression ExpressionRead) (hblock : Sound block BlockRead)
    (hd : s.depth ≤ maxNesting) (hw : s.words = w :: rest) (hk : w.kind = .keyword .whileKw)
    (h : whileLoop expression block s = .ok node s') (a : Origin) :
    StatementRead s s' (node a) := by
  have hp1 := State.passed_next hw
  -- what the rule reads, part by part
  obtain ⟨c, s₁, h1, h⟩ := bind_eq_ok.mp (show (expression >>= fun c => inLoop block >>= fun body =>
    pure fun a => .loop a c body : Parse (Origin → Stmt Origin)) s.next = _ from h)
  obtain ⟨body, s₂, h2, h⟩ := bind_eq_ok.mp h
  obtain ⟨rfl, rfl⟩ := pure_eq_ok h
  -- the body was read in the context of a loop
  obtain ⟨⟨k, ws, hp2, hfit, hc⟩, -⟩ := hexpr _ c s₁ (by rw [hp1.depth]; exact hd) h1
  have hp := hp1.trans hp2
  obtain ⟨⟨k', ws', hp3, hfit', hbody⟩, hwp⟩ := inLoop_sound hblock
    (by rw [hp.depth]; exact hd) h2
  rw [hp1.depth] at hfit
  rw [hp.depth] at hfit'
  refine ⟨⟨max k k', w :: ws ++ ws', hp.trans hp3, by omega, .loop w hk hc hbody⟩, ?_⟩
  show Stmt.allWellPlaced (decide (0 < s.functions)) true body = true
  rw [← hp.functions]
  exact hwp

theorem returned_sound (hexpr : Sound expression ExpressionRead) (hd : s.depth ≤ maxNesting)
    (hw : s.words = w :: rest) (hk : w.kind = .keyword .returnKw)
    (h : returned expression s = .ok node s') (a : Origin) : StatementRead s s' (node a) := by
  change (if s.functions = 0 then throw ⟨.returnOutsideFunction, s.span⟩
    else advance >>= fun _ => get >>= fun s => if s.atSeparator true then
        pure fun a => .ret a none
      else expression >>= fun e => pure fun a => .ret a (some e)
    : Parse (Origin → Stmt Origin)) s = _ at h
  split at h
  · -- outside of a function the rule fails
    exact absurd h (by nofun)
  · rename_i hf
    have hp1 := State.passed_next hw
    -- inside of one `return` stands where it may
    have hin : decide (0 < s.functions) = true := decide_eq_true (Nat.pos_of_ne_zero hf)
    change (if s.next.atSeparator true then pure fun a => .ret a none
      else expression >>= fun e => pure fun a => .ret a (some e)
      : Parse (Origin → Stmt Origin)) s.next = _ at h
    split at h
    · -- the statement ends behind the keyword
      obtain ⟨rfl, rfl⟩ := pure_eq_ok h
      exact ⟨⟨0, [w], hp1, hd, .ret w hk⟩, hin⟩
    · -- the value is an expression
      obtain ⟨e, s₁, h1, h⟩ := bind_eq_ok.mp h
      obtain ⟨rfl, rfl⟩ := pure_eq_ok h
      obtain ⟨⟨k, ws, hp2, hfit, he⟩, -⟩ := hexpr _ e s' (by rw [hp1.depth]; exact hd) h1
      rw [hp1.depth] at hfit
      exact ⟨⟨k, w :: ws, hp1.trans hp2, hfit, .retValue w hk he⟩, hin⟩

theorem printed_sound {n : Nat} (hexpr : Sound expression ExpressionRead)
    (hd : s.depth ≤ maxNesting) (hw : s.words = w :: rest) (hk : w.kind = .keyword .printKw)
    (h : printed n expression s = .ok node s') (a : Origin) : StatementRead s s' (node a) := by
  have hp1 := State.passed_next hw
  obtain ⟨u, s₁, h1, h⟩ := bind_eq_ok.mp (show (expect .leftParen .parenAfterPrint >>= fun _ =>
    parenList n (fun _ => expression) >>= fun arguments => pure fun a => .print a arguments
    : Parse (Origin → Stmt Origin)) s.next = _ from h)
  obtain ⟨args, s₂, h2, h⟩ := bind_eq_ok.mp h
  obtain ⟨rfl, rfl⟩ := pure_eq_ok h
  obtain ⟨o, ho, hp2⟩ := expect_eq_ok h1
  have hp := hp1.trans hp2
  -- the arguments are derived one by one
  have hargs := parenList_sound (P := fun _ => True)
    (fun _ s e s' hs he => (hexpr s e s' hs he).1) trivial (fun _ _ _ _ _ _ => trivial) n
    s₁ args s' (by rw [hp.depth]; exact hd) h2
  obtain ⟨-, k, ws, hp3, hfit, ha⟩ := hargs
  rw [hp.depth] at hfit
  refine ⟨⟨k, w :: o :: ws, hp.trans hp3, hfit, ?_⟩, rfl⟩
  show Statement k _ (.print () (Expr.shapes args))
  rw [Expr.shapes_eq_map]
  exact .print w o hk ho (ha.map fun _ _ _ he => he)

theorem loopControl_sound {keyword : Keyword} (next : Origin → Stmt Origin)
    (hd : s.depth ≤ maxNesting) (hw : s.words = w :: rest)
    (hnext : ∀ a, Statement 0 [w] (next a).shape ∧ ∀ f l, (next a).wellPlaced f l = l)
    (h : loopControl keyword next s = .ok node s') (a : Origin) : StatementRead s s' (node a) := by
  change (if s.loops = 0 then throw ⟨.loopControlOutsideLoop keyword, s.span⟩
    else advance >>= fun _ => pure next : Parse (Origin → Stmt Origin)) s = _ at h
  split at h
  · exact absurd h (by nofun)
  · rename_i hl
    cases h
    refine ⟨⟨0, [w], State.passed_next hw, hd, (hnext a).1⟩, ?_⟩
    rw [(hnext a).2]
    exact decide_eq_true (Nat.pos_of_ne_zero hl)

/-- The first word decides between the rules for statements. -/
theorem simpleStatement_eq (n : Nat) (s : State) :
    simpleStatement n expression block s =
      match s.kind? with
      | some (.keyword .letKw) => declaration expression s
      | some (.keyword .fnKw) => definition n block s
      | some (.keyword .whileKw) => whileLoop expression block s
      | some (.keyword .returnKw) => returned expression s
      | some (.keyword .breakKw) => loopControl .breakKw .breakLoop s
      | some (.keyword .continueKw) => loopControl .continueKw .continueLoop s
      | some (.keyword .printKw) => printed n expression s
      | some (.symbol .leftBrace) => (block >>= fun body => pure fun a => .block a body) s
      | _ => (expression >>= fun e => pure fun a => .expr a e) s := by
  -- the match is on the kind alone, so the state may be given to each rule
  show (match s.kind? with
      | some (.keyword .letKw) => declaration expression
      | some (.keyword .fnKw) => definition n block
      | some (.keyword .whileKw) => whileLoop expression block
      | some (.keyword .returnKw) => returned expression
      | some (.keyword .breakKw) => loopControl .breakKw .breakLoop
      | some (.keyword .continueKw) => loopControl .continueKw .continueLoop
      | some (.keyword .printKw) => printed n expression
      | some (.symbol .leftBrace) => block >>= fun body => pure fun a => .block a body
      | _ => expression >>= fun e => pure fun a => .expr a e : Parse (Origin → Stmt Origin)) s = _
  generalize s.kind? = kind
  split <;> rfl

/-- A statement other than `if`, whatever origin it is given. -/
theorem simpleStatement_sound {n : Nat} (hexpr : Sound expression ExpressionRead)
    (hblock : Sound block BlockRead) :
    Sound (simpleStatement n expression block) fun s s' node =>
      ∀ a : Origin, StatementRead s s' (node a) := by
  intro s node s' hd h a
  rw [simpleStatement_eq] at h
  -- one case for each rule
  split at h
  · rename_i hkind
    obtain ⟨w, rest, hw, hk⟩ := State.words_of_kind? hkind (by simp)
    exact declaration_sound hexpr hd hw hk h a
  · rename_i hkind
    obtain ⟨w, rest, hw, hk⟩ := State.words_of_kind? hkind (by simp)
    exact definition_sound hblock hd hw hk h a
  · rename_i hkind
    obtain ⟨w, rest, hw, hk⟩ := State.words_of_kind? hkind (by simp)
    exact whileLoop_sound hexpr hblock hd hw hk h a
  · rename_i hkind
    obtain ⟨w, rest, hw, hk⟩ := State.words_of_kind? hkind (by simp)
    exact returned_sound hexpr hd hw hk h a
  · rename_i hkind
    obtain ⟨w, rest, hw, hk⟩ := State.words_of_kind? hkind (by simp)
    exact loopControl_sound .breakLoop hd hw
      (fun a => ⟨.breakLoop w hk, fun _ _ => rfl⟩) h a
  · rename_i hkind
    obtain ⟨w, rest, hw, hk⟩ := State.words_of_kind? hkind (by simp)
    exact loopControl_sound .continueLoop hd hw
      (fun a => ⟨.continueLoop w hk, fun _ _ => rfl⟩) h a
  · rename_i hkind
    obtain ⟨w, rest, hw, hk⟩ := State.words_of_kind? hkind (by simp)
    exact printed_sound hexpr hd hw hk h a
  · -- a block
    obtain ⟨body, s₁, h1, h⟩ := bind_eq_ok.mp h
    obtain ⟨rfl, rfl⟩ := pure_eq_ok h
    obtain ⟨⟨k, ws, hp, hfit, hb⟩, hwp⟩ := hblock s body s' hd h1
    exact ⟨⟨k, ws, hp, hfit, .block hb⟩, hwp⟩
  · -- an expression
    obtain ⟨e, s₁, h1, h⟩ := bind_eq_ok.mp h
    obtain ⟨rfl, rfl⟩ := pure_eq_ok h
    obtain ⟨⟨k, ws, hp, hfit, he⟩, -⟩ := hexpr s e s' hd h1
    exact ⟨⟨k, ws, hp, hfit, .expr he⟩, rfl⟩

end Simple

/-! ## Conditionals -/

section Conditionals

variable {expression : Parse (Expr Origin)} {block : Parse (List (Stmt Origin))}

/-- A parser for conditionals is only run at an `if`. -/
def ConditionalSound (p : Parse (Stmt Origin)) : Prop :=
  ∀ s b s', s.depth ≤ maxNesting → s.atKeyword .ifKw = true → p s = .ok b s' →
    ConditionalRead s s' b

/-- What follows an `else`: a block, or a conditional one level deeper. -/
def BranchRead (s s' : State) (b : Stmt Origin) : Prop :=
  ((∃ body a, b = .block a body ∧
      Derived (fun k ws body => Block k ws (Stmt.shapes body)) s s' body) ∨
    ∃ k ws, Passed s s' ws ∧ s.depth + (k + 1) ≤ maxNesting ∧ Conditional k ws b.shape) ∧
  b.wellPlaced (decide (0 < s.functions)) (decide (0 < s.loops)) = true

theorem elseBranch_sound {conditional : Parse (Stmt Origin)}
    (hcond : ConditionalSound conditional) (hblock : Sound block BlockRead) :
    Sound (elseBranch conditional block) BranchRead := by
  intro s b s' hd h
  change (if s.atKeyword .ifKw then nested conditional
    else block >>= fun body => originFrom s.span s.position >>= fun a => pure (.block a body)
    : Parse (Stmt Origin)) s = _ at h
  split at h
  · rename_i hif
    obtain ⟨hlt, s₁, h1, rfl⟩ := nested_eq_ok h
    obtain ⟨hder, hwp⟩ := hcond (s.atDepth (s.depth + 1)) b s₁ hlt hif h1
    exact ⟨Or.inr hder.leave, hwp⟩
  · obtain ⟨body, s₁, h1, h⟩ := bind_eq_ok.mp h
    obtain ⟨hder, hwp⟩ := hblock s body s₁ hd h1
    cases h
    exact ⟨Or.inl ⟨body, _, rfl, hder⟩, hwp⟩

theorem conditional_sound {branch : Parse (Stmt Origin)} (hexpr : Sound expression ExpressionRead)
    (hblock : Sound block BlockRead) (hbranch : Sound branch BranchRead) :
    ConditionalSound (conditional expression block branch) := by
  intro s b s' hd hif h
  obtain ⟨w, rest, hw, hk⟩ := State.words_of_atKeyword hif
  have hp1 := State.passed_next hw
  -- the join point of the two ways on after the first block
  have hjoin : ∀ {c : Expr Origin} {t : List (Stmt Origin)} {alt : Option (Stmt Origin)}
      {s₁ : State}, (originFrom s.span s.position >>= fun a => pure (.cond a c t alt)
        : Parse (Stmt Origin)) s₁ = .ok b s' → s' = s₁ ∧ ∃ a, b = .cond a c t alt := by
    intro c t alt s₁ h
    cases h
    exact ⟨rfl, _, rfl⟩
  obtain ⟨c, s₁, h1, h⟩ := bind_eq_ok.mp (show (expression >>= fun c => block >>= fun t =>
    get >>= fun s₂ => if s₂.skipNewlines.atKeyword .elseKw then
      set s₂.skipNewlines >>= fun _ => advance >>= fun _ => (some <$> branch) >>= fun alt =>
        originFrom s.span s.position >>= fun a => pure (.cond a c t alt)
    else pure none >>= fun alt => originFrom s.span s.position >>= fun a =>
        pure (.cond a c t alt) : Parse (Stmt Origin)) s.next = _ from h)
  obtain ⟨t, s₂, h2, h⟩ := bind_eq_ok.mp h
  obtain ⟨⟨k, ws, hp2, hfit, hc⟩, -⟩ := hexpr _ c s₁ (by rw [hp1.depth]; exact hd) h1
  have hp12 := hp1.trans hp2
  obtain ⟨⟨k', ws', hp3, hfit', ht⟩, hwp⟩ := hblock s₁ t s₂ (by rw [hp12.depth]; exact hd) h2
  rw [hp12.functions, hp12.loops] at hwp
  rw [hp1.depth] at hfit
  rw [hp12.depth] at hfit'
  have hp := hp12.trans hp3
  change (if s₂.skipNewlines.atKeyword .elseKw then
      set s₂.skipNewlines >>= fun _ => advance >>= fun _ => (some <$> branch) >>= fun alt =>
        originFrom s.span s.position >>= fun a => pure (.cond a c t alt)
    else pure none >>= fun alt => originFrom s.span s.position >>= fun a =>
        pure (.cond a c t alt) : Parse (Stmt Origin)) s₂ = _ at h
  split at h
  · rename_i helse
    obtain ⟨gap, hgap, hp4, -⟩ := State.passed_skipNewlines s₂
    obtain ⟨we, tail, hwe, hek⟩ := State.words_of_atKeyword helse
    have hp5 := State.passed_next hwe
    have hp' := (hp.trans hp4).trans hp5
    obtain ⟨alt, s₃, h3, h⟩ := bind_eq_ok.mp (show ((some <$> branch) >>= fun alt =>
      originFrom s.span s.position >>= fun a => pure (.cond a c t alt) : Parse (Stmt Origin))
        s₂.skipNewlines.next = _ from h)
    obtain ⟨rfl, a, rfl⟩ := hjoin h
    obtain ⟨b', rfl, h4⟩ := map_eq_ok h3
    obtain ⟨hder, hwp'⟩ := hbranch _ b' s' (by rw [hp'.depth]; exact hd) h4
    rw [hp'.functions, hp'.loops] at hwp'
    have hwpall : (Stmt.cond a c t (some b')).wellPlaced (decide (0 < s.functions))
        (decide (0 < s.loops)) = true := by
      show (Stmt.allWellPlaced _ _ t && b'.wellPlaced _ _) = true
      rw [hwp, hwp']
      rfl
    refine ⟨?_, hwpall⟩
    rcases hder with ⟨body, a', rfl, k'', ws'', hp6, hfit'', hb⟩ | ⟨k'', ws'', hp6, hfit'', hb⟩
    · rw [hp'.depth] at hfit''
      refine ⟨max (max k k') k'', w :: ws ++ ws' ++ gap ++ we :: ws'', ?_, by omega,
        .elseBlock w we gap hk hc ht hgap hek hb⟩
      simpa only [List.append_assoc, List.cons_append, List.nil_append] using hp'.trans hp6
    · rw [hp'.depth] at hfit''
      refine ⟨max (max k k') (k'' + 1), w :: ws ++ ws' ++ gap ++ we :: ws'', ?_, by omega,
        .elseIf w we gap hk hc ht hgap hek hb⟩
      simpa only [List.append_assoc, List.cons_append, List.nil_append] using hp'.trans hp6
  · obtain ⟨rfl, a, rfl⟩ := hjoin h
    exact ⟨⟨max k k', w :: ws ++ ws', hp, by omega, .plain w hk hc ht⟩, hwp⟩

end Conditionals

/-! ## Lists of statements -/

/-- After a statement comes a separator, the brace that closes the block, or the end. -/
theorem State.atSeparator_cases {s : State} {inBlock : Bool} (h : s.atSeparator inBlock = true) :
    s.words = [] ∨ ∃ w rest, s.words = w :: rest ∧
      (IsSeparator w ∨ inBlock = true ∧ w.kind = .symbol .rightBrace) := by
  cases hw : s.words with
  | nil => exact Or.inl rfl
  | cons w rest =>
    refine Or.inr ⟨w, rest, rfl, ?_⟩
    obtain ⟨t, ts, -, hne, rfl, -⟩ := State.rest_of_words hw
    rw [State.atSeparator, State.kind?_of_words hw] at h
    split at h
    · rename_i heq; exact absurd heq (by simp)
    · rename_i heq; exact absurd (Option.some.inj heq) hne
    · rename_i heq; exact Or.inl (Or.inl (Option.some.inj heq))
    · rename_i heq; exact Or.inl (Or.inr (Option.some.inj heq))
    · rename_i heq; exact Or.inr ⟨h, Option.some.inj heq⟩
    · exact absurd h (by simp)

/-- **Statements with separators between them**, by induction on the bound: what one more statement
    adds to the list. -/
theorem statements_sound {statement : Parse (Stmt Origin)}
    (hstmt : Sound statement StatementRead) (inBlock : Bool) (n : Nat) :
    Sound (statements statement inBlock n) (StatementsRead inBlock) := by
  induction n with
  | zero => intro s body s' _ h; exact absurd h (by nofun)
  | succ n ih =>
    intro s body s' hd h
    obtain ⟨gap, hgap, hp1, -⟩ := State.passed_skipSeparators s
    change (if s.skipSeparators.atEnd || (inBlock && s.skipSeparators.atSymbol .rightBrace) then
        pure []
      else statement >>= fun first => get >>= fun s₁ => if s₁.atSeparator inBlock then
          statements statement inBlock n >>= fun others => pure (first :: others)
        else unexpected .separator : Parse (List (Stmt Origin))) s.skipSeparators = _ at h
    split at h
    · rename_i hend
      obtain ⟨rfl, rfl⟩ := pure_eq_ok h
      -- outside a block only the end of the input ends the list
      refine ⟨⟨0, gap, hp1, hd, .none gap hgap⟩, rfl, fun hb => ?_⟩
      subst hb
      exact State.atEnd_eq_true_iff.mp (by simpa using hend)
    · obtain ⟨first, s₁, h1, h⟩ := bind_eq_ok.mp h
      obtain ⟨⟨k, ws, hp2, hfit, hs⟩, hwp⟩ := hstmt _ first s₁ (by rw [hp1.depth]; exact hd) h1
      rw [hp1.functions, hp1.loops] at hwp
      rw [hp1.depth] at hfit
      have hp := hp1.trans hp2
      change (if s₁.atSeparator inBlock then
          statements statement inBlock n >>= fun others => pure (first :: others)
        else unexpected .separator : Parse (List (Stmt Origin))) s₁ = _ at h
      split at h
      · rename_i hsep
        obtain ⟨others, s₂, h2, h⟩ := bind_eq_ok.mp h
        obtain ⟨rfl, rfl⟩ := pure_eq_ok h
        obtain ⟨⟨k', ws', hp3, hfit', hothers⟩, hwp', hlast⟩ := ih s₁ others s'
          (by rw [hp.depth]; exact hd) h2
        rw [hp.functions, hp.loops] at hwp'
        rw [hp.depth] at hfit'
        refine ⟨?_, ?_, hlast⟩
        · have hpall := hp.trans hp3
          cases ws' with
          | nil =>
            -- nothing follows the statement
            have hnil : Stmt.shapes others = [] := hothers.nil_inv
            refine ⟨k, gap ++ ws, by simpa using hpall, hfit, ?_⟩
            show Statements k _ (first.shape :: Stmt.shapes others)
            rw [hnil]
            exact .last gap hgap hs
          | cons v ws' =>
            -- more words follow, and they start with the separator that was seen
            have hv : IsSeparator v := by
              rcases State.atSeparator_cases hsep with hw | ⟨w, rest, hw, hcase⟩
              · rw [hp3.words] at hw; exact absurd hw (by simp)
              · rw [hp3.words] at hw
                obtain ⟨rfl, -⟩ := List.cons.inj hw
                rcases hcase with hsepw | ⟨-, hbrace⟩
                · exact hsepw
                · rcases hothers.head_cases with h' | h'
                  · exact h'
                  · rw [hbrace] at h'; exact absurd h' (by decide)
            refine ⟨max k k', gap ++ ws ++ v :: ws', hpall, by omega, ?_⟩
            exact .more gap v hgap hs hv (hothers.drop_separator hv)
        · show (first.wellPlaced _ _ && Stmt.allWellPlaced _ _ others) = true
          rw [hwp, hwp']
          rfl
      · exact absurd h (by nofun)

/-- Statements in braces, one level deeper. -/
theorem braced_sound {statement : Parse (Stmt Origin)} (hstmt : Sound statement StatementRead)
    (n : Nat) : Sound (braced n statement) BlockRead := by
  intro s body s' hd h
  obtain ⟨u, s₁, h1, h⟩ := bind_eq_ok.mp h
  obtain ⟨u', s₂, h2, h⟩ := bind_eq_ok.mp h
  obtain ⟨body', s₃, h3, h⟩ := bind_eq_ok.mp h
  obtain ⟨u'', s₄, h4, h⟩ := bind_eq_ok.mp (show (expect .rightBrace .rightBrace >>= fun _ =>
    pure body' : Parse (List (Stmt Origin))) s₃.leave = _ from h)
  obtain ⟨rfl, rfl⟩ := pure_eq_ok h
  obtain ⟨o, ho, hp1⟩ := expect_eq_ok h1
  obtain ⟨hlt, rfl⟩ := enter_eq_ok h2
  obtain ⟨hder, hwp, -⟩ := statements_sound hstmt true n (s₁.atDepth (s₁.depth + 1)) body s₃ hlt h3
  -- the statements open one level fewer than the block
  obtain ⟨k, ws, hp2, hfit, hb⟩ := hder.leave
  obtain ⟨c, hc, hp3⟩ := expect_eq_ok h4
  rw [hp1.depth] at hfit
  refine ⟨⟨k + 1, o :: ws ++ [c], (hp1.trans hp2).trans hp3, hfit, .braces o c ho hb hc⟩, ?_⟩
  -- reading the brace left the counters as they were
  rw [← hp1.functions, ← hp1.loops]
  exact hwp

/-- **Statements**, by induction on the bound. -/
theorem rules_sound (n : Nat) :
    Sound (statement n) StatementRead ∧ ConditionalSound (ifStatement n) ∧
      Sound (block n) BlockRead := by
  induction n with
  | zero =>
    refine ⟨?_, ?_, ?_⟩
    · -- no bound is left
      intro s b s' _ h; exact absurd h (by nofun)
    · intro s b s' _ _ h; exact absurd h (by nofun)
    · intro s b s' _ h; exact absurd h (by nofun)
  | succ n ih =>
    obtain ⟨hstmt, hcond, hblock⟩ := ih
    have hexpr := (expressions_sound n).1
    refine ⟨?_, conditional_sound hexpr hblock (elseBranch_sound hcond hblock),
      braced_sound hstmt n⟩
    intro s b s' hd h
    change (if s.atKeyword .ifKw then ifStatement n
      else simpleStatement n (expression n) (block n) >>= fun node =>
        originFrom s.span s.position >>= fun a => pure (node a) : Parse (Stmt Origin)) s = _ at h
    split at h
    · -- a conditional
      rename_i hif
      obtain ⟨⟨k, ws, hp, hfit, hc⟩, hwp⟩ := hcond s b s' hd hif h
      exact ⟨⟨k, ws, hp, hfit, .cond hc⟩, hwp⟩
    · -- any other statement, with its range
      obtain ⟨node, s₁, h1, h⟩ := bind_eq_ok.mp h
      have hread := simpleStatement_sound hexpr hblock s node s₁ hd h1
      cases h
      exact hread _

end Parse

end Scriptlet
