/-
  Continuation: what tokens behind a token list change about parsing it.

  1. **Expressions** and **statements** — one lemma for each rule of the grammar says that the two
     runs of it are twins, and an induction on the bound ties them together.  An expression that
     halts has read all tokens, a block that halts has failed, and a statement that halts may have
     left newlines, behind which it looked for an `else`.
  2. **The end** (`parse_append_eof`) — whatever stands behind an `eof` is not read, and a list with
     an `eof` behind it is parsed like the list without it.  Only an error at the end is reported at
     the `eof` instead of the last token.
  3. **Finality** (`parse_append_of_error`) — an error that is not about the end of the input or the
     limit on nesting stays, whatever tokens follow.
-/
import Scriptlet.Proofs.Grammar.Lockstep
import Scriptlet.Proofs.Grammar.Reading

namespace Scriptlet

namespace Parse

variable {β γ : Type} {tokens later : List Token} {room : Nat} {s : State}
variable {Done : State → Prop}

/-! ## Expressions -/

/-- Two parsers of expressions that are twins. -/
abbrev TwinExprs (tokens later : List Token) (room : Nat) (p p' : Parse (Expr Origin)) : Prop :=
  Twins tokens later room State.Exhausted (Expr.Fits tokens) p p'

section Expressions

variable {operand operand' value value' argument argument' inner inner' call call' callee callee' :
  Parse (Expr Origin)} {n n' : Nat}

/-- A symbol, perhaps newlines, and then what twins read. -/
theorem Twins.abreast_operand {R : Nat → Nat → β → Prop} {p p' : Parse β} {f f' : β → Parse γ}
    (h : Twins tokens later room State.Exhausted R p p') (hs : Stands tokens s) (hne : s.rest ≠ [])
    (hroom : tokens.length < s.position + (room + 1))
    (hnext : ∀ b s₁, Stands tokens s₁ → Abreast tokens later Done (f b s₁) (f' b (s₁.extend later)))
    (hdone : ∀ b s₁, s₁.Exhausted → Halts Done (f b s₁)) :
    Abreast tokens later Done
      ((advance >>= fun _ => skipNewlines >>= fun _ => p >>= f) s)
      ((advance >>= fun _ => skipNewlines >>= fun _ => p' >>= f') (s.extend later)) := by
  refine abreast_advance hs hne fun s₁ hs₁ hpos₁ => ?_
  refine abreast_skipNewlines hs₁ (fun s₂ hs₂ hle₂ => ?_) fun s₂ h₂ => (h.idles s₂ h₂).bind hdone
  exact h.bind hs₂ (by omega) (fun b s₃ hs₃ _ => hnext b s₃ hs₃) hdone

/-- What is read when the tokens are used up is up to the target. -/
theorem assignment_idles (hoperand : Idles State.Exhausted operand) :
    Idles State.Exhausted (assignment operand value) := by
  intro s h
  rw [assignment, get_bind]
  refine (hoperand s h).bind fun target s₁ h₁ => ?_
  rw [get_bind, State.atSymbol_of_exhausted h₁]
  exact h₁

/-- The target, and the value if `=` follows it. -/
theorem twins_assignment (hoperand : TwinExprs tokens later (room + 1) operand operand')
    (hvalue : TwinExprs tokens later room value value') :
    TwinExprs tokens later (room + 1) (assignment operand value) (assignment operand' value') := by
  refine ⟨assignment_tells hoperand.tells hvalue.tells, assignment_idles hoperand.idles,
    fun s hs hroom => ?_⟩
  rw [assignment, assignment, get_bind, get_bind]
  refine hoperand.bind hs hroom (fun target s₁ hs₁ htarget => ?_) fun target s₁ h₁ => ?_
  · -- the target is read in step
    have hlt := htarget.lt
    rw [get_bind, get_bind]
    refine .ite (peek_atSymbol .assign) (fun h₁ => ?_) (fun hassign => ?_) fun _ =>
      abreast_pure hs₁ target
    · -- at the end of the tokens no `=` follows, and the first run halts
      rw [State.atSymbol_of_exhausted h₁]
      exact h₁
    · have hne := rest_ne_nil_of_atSymbol hassign
      rw [State.span_extend hne, State.position_extend, State.position_extend]
      -- what stands on the left is judged alike in both runs
      cases bareName? target s.position s₁.position with
      | none => exact abreast_throw rfl s₁ (s₁.extend later)
      | some x =>
        refine hvalue.abreast_operand hs₁ hne (by omega) (fun e s₂ hs₂ => ?_) fun _ _ h₂ => h₂
        exact abreast_pure hs₂ _
  · -- the first run halted within the target
    rw [get_bind, State.atSymbol_of_exhausted h₁]
    exact h₁

/-- An operator is there in both runs, so both go on with its right operand. -/
theorem abreast_operationLink {prec : Precedence} {start : Nat}
    (hoperand : TwinExprs tokens later room operand operand') (left : Expr Origin) (s : State)
    (hs : Stands tokens s) (hmore : (s.operator? prec).isSome = true)
    (hroom : tokens.length < s.position + room) :
    Abreast tokens later State.Exhausted (operationLink prec operand start left s)
      (operationLink prec operand' start left (s.extend later)) := by
  obtain ⟨op, hop⟩ := Option.isSome_iff_exists.mp hmore
  have hne := rest_ne_nil_of_operator? hop
  have hop' : (s.extend later).operator? prec = some op :=
    (peek_operator? prec s later (.inl hne)).trans hop
  rw [operationLink, operationLink, get_bind, get_bind, hop, hop', State.span_extend hne]
  refine hoperand.abreast_operand hs hne (by omega) (fun right s₁ hs₁ => ?_) fun _ _ h₁ => h₁
  exact abreast_pure hs₁ _

/-- A link takes at least its operator. -/
theorem operationLink_longer {prec : Precedence} {start : Nat} (hoperand : TellsExpr tokens operand)
    (left : Expr Origin) (s : State) (hs : At tokens s) (hmore : (s.operator? prec).isSome = true) :
    Told tokens (fun hi _ => s.position < hi) (operationLink prec operand start left s) := by
  obtain ⟨op, hop⟩ := Option.isSome_iff_exists.mp hmore
  rw [operationLink, get_bind, hop]
  refine told_advance hs (rest_ne_nil_of_operator? hop) fun s₁ hs₁ hpos₁ => ?_
  refine told_skipNewlines hs₁ fun s₂ hs₂ hle₂ => ?_
  refine (hoperand s₂ hs₂).bind fun right s₃ hs₃ hright => ?_
  have hlt := hright.lt
  exact told_pure hs₃ (by omega)

/-- A level halts where its first operand does. -/
theorem operations_idles {prec : Precedence} (hoperand : Idles State.Exhausted operand) :
    Idles State.Exhausted (operations n prec operand) := by
  intro s h
  rw [operations, get_bind]
  refine chain_idles (fun s₁ h₁ => ?_) hoperand n s h
  rw [State.operator?_of_exhausted h₁]
  rfl

/-- The operations of a level, with bounds that need not be the same. -/
theorem twins_operations {prec : Precedence}
    (hoperand : TwinExprs tokens later room operand operand') (hn : room ≤ n) (hn' : room ≤ n') :
    TwinExprs tokens later room (operations n prec operand) (operations n' prec operand') := by
  refine ⟨operations_tells hoperand.tells n prec, operations_idles hoperand.idles,
    fun s hs hroom => ?_⟩
  have hpeek : Peek fun s => (s.operator? prec).isSome := fun s₁ later hsight =>
    congrArg Option.isSome (peek_operator? prec s₁ later hsight)
  rw [operations, operations, get_bind, get_bind]
  refine chain_abreast hpeek (fun s₁ h₁ => ?_) (fun _ _ hmore => hmore) hoperand
    (fun _ _ _ he => Nat.le_of_lt he.lt) hs hroom (abreast_operationLink hoperand)
    (operationLink_longer hoperand.tells) hn hn'
  rw [State.operator?_of_exhausted h₁]
  rfl

/-- Arguments in parentheses, from just behind the opening one. -/
theorem twins_arguments (hargument : TwinExprs tokens later room argument argument')
    (hn : room ≤ n) (hn' : room ≤ n') :
    Twins tokens later room Never (Row (Expr.Fits tokens)) (parenList n fun _ => argument)
      (parenList n' fun _ => argument') :=
  twins_parenList (fun _ => hargument) (Expr.widens_fits tokens)
    (fun _ _ _ he => Nat.le_of_lt he.lt) hn hn'

/-- A parenthesis is there in both runs, so both go on with the arguments. -/
theorem abreast_callLink {start : Nat} (hargument : TwinExprs tokens later room argument argument')
    (hn : room ≤ n) (hn' : room ≤ n') (left : Expr Origin) (s : State) (hs : Stands tokens s)
    (hmore : s.atSymbol .leftParen = true) (hroom : tokens.length < s.position + (room + 1)) :
    Abreast tokens later State.Exhausted (callLink n argument start left s)
      (callLink n' argument' start left (s.extend later)) := by
  have hne := rest_ne_nil_of_atSymbol hmore
  rw [callLink, callLink, get_bind, get_bind, State.span_extend hne]
  refine abreast_advance hs hne fun s₁ hs₁ hpos₁ => ?_
  have harguments := twins_arguments hargument hn hn'
  refine harguments.bind hs₁ (by omega) (fun args s₂ hs₂ _ => ?_) fun _ _ => False.elim
  exact abreast_pure hs₂ _

/-- A call takes at least its parenthesis. -/
theorem callLink_longer {start : Nat} (hargument : TellsExpr tokens argument) (left : Expr Origin)
    (s : State) (hs : At tokens s) (hmore : s.atSymbol .leftParen = true) :
    Told tokens (fun hi _ => s.position < hi) (callLink n argument start left s) := by
  rw [callLink, get_bind]
  refine told_advance hs (rest_ne_nil_of_atSymbol hmore) fun s₁ hs₁ hpos₁ => ?_
  refine (arguments_tells hargument n s₁ hs₁).bind fun args s₂ hs₂ hargs => ?_
  have hle := hargs.1
  exact told_pure hs₂ (by omega)

/-- A chain of calls halts where its callee does. -/
theorem calls_idles (hcallee : Idles State.Exhausted callee) :
    Idles State.Exhausted (calls n callee argument) := by
  intro s h
  rw [calls, get_bind]
  exact chain_idles (fun s₁ h₁ => State.atSymbol_of_exhausted h₁ _) hcallee n s h

/-- A callee and the calls behind it. -/
theorem twins_calls (hcallee : TwinExprs tokens later (room + 1) callee callee')
    (hargument : TwinExprs tokens later room argument argument') (hn : room + 1 ≤ n)
    (hn' : room + 1 ≤ n') :
    TwinExprs tokens later (room + 1) (calls n callee argument) (calls n' callee' argument') := by
  refine ⟨calls_tells hcallee.tells hargument.tells n, calls_idles hcallee.idles,
    fun s hs hroom => ?_⟩
  rw [calls, calls, get_bind, get_bind]
  refine chain_abreast (peek_atSymbol .leftParen) (fun s₁ h₁ => State.atSymbol_of_exhausted h₁ _)
    (fun _ _ hmore => hmore) hcallee (fun _ _ _ he => Nat.le_of_lt he.lt) hs hroom ?_
    (callLink_longer hargument.tells) hn hn'
  exact abreast_callLink hargument (Nat.le_of_lt hn) (Nat.le_of_lt hn')

/-- No sign comes next where the tokens are used up. -/
theorem unaryOr_idles (hcall : Idles State.Exhausted call) :
    Idles State.Exhausted (unaryOr operand call) := by
  intro s h
  rw [unaryOr, get_bind, State.unaryOp?_of_exhausted h]
  exact hcall s h

/-- A sign and its operand, or what else stands there. -/
theorem twins_unaryOr (hoperand : TwinExprs tokens later room operand operand')
    (hcall : TwinExprs tokens later (room + 1) call call') :
    TwinExprs tokens later (room + 1) (unaryOr operand call) (unaryOr operand' call') := by
  have idles : Idles State.Exhausted (unaryOr operand call) := unaryOr_idles hcall.idles
  refine ⟨unaryOr_tells hoperand.tells hcall.tells, idles, fun s hs hroom => ?_⟩
  refine .of_sight (idles s) fun hsight => ?_
  rw [unaryOr, unaryOr, get_bind, get_bind, peek_unaryOp? s later hsight]
  cases hop : s.unaryOp? with
  -- no sign: the operand is read on the same level
  | none => exact hcall.abreast s hs hroom
  | some op =>
    -- a sign was read, so a token was left
    have hne : s.rest ≠ [] := fun h => by
      rw [State.unaryOp?_of_exhausted h] at hop
      cases hop
    rw [State.span_extend hne]
    refine abreast_advance hs hne fun s₁ hs₁ hpos₁ => ?_
    have hnested := hoperand.nested fun _ h => h
    refine hnested.bind hs₁ (by omega) (fun e s₂ hs₂ _ => ?_) fun _ _ h₂ => h₂
    exact abreast_pure hs₂ _

/-- Nothing comes next, so this fails there. -/
theorem primary_idles : Idles State.Exhausted (primary inner) := by
  intro s h
  rw [primary, get_bind, State.atSymbol_of_exhausted h, show s.rest = [] from h]
  exact halts_unexpected h .expression

/-- A token by itself, or an expression in parentheses. -/
theorem twins_primary (hinner : TwinExprs tokens later room inner inner') :
    TwinExprs tokens later (room + 1) (primary inner) (primary inner') := by
  refine ⟨primary_tells hinner.tells, primary_idles, fun s hs hroom => ?_⟩
  refine .of_sight (primary_idles s) fun hsight => ?_
  rw [primary, primary, get_bind, get_bind]
  refine .ite (peek_atSymbol .leftParen) (fun h => ?_) (fun hparen => ?_) fun _ => ?_
  · -- at the end of the tokens neither run sees a parenthesis
    have idles : Halts State.Exhausted (primary inner s) := primary_idles s h
    rwa [primary, get_bind] at idles
  · -- in parentheses
    have hne := rest_ne_nil_of_atSymbol hparen
    refine hinner.abreast_operand hs hne hroom (fun e s₁ hs₁ => ?_) fun e s₁ h₁ =>
      halts_skipNewlines h₁ fun s₂ h₂ => (halts_expect h₂ _ _).fails
    refine abreast_skipNewlines hs₁ (fun s₂ hs₂ _ => ?_) fun s₂ h₂ =>
      (halts_expect h₂ _ _).fails
    exact abreast_expect hs₂ _ _ fun s₃ hs₃ _ => abreast_pure hs₃ e
  · -- a single token, which both runs see if one is left
    have hsame : (s.extend later).rest.head?.bind leaf? = s.rest.head?.bind leaf? :=
      peek_leaf? s later hsight
    rw [hsame]
    cases hleaf : s.rest.head?.bind leaf? with
    | none => exact abreast_unexpected hs .expression
    | some node =>
      have hne : s.rest ≠ [] := fun h => by
        rw [h] at hleaf
        cases hleaf
      rw [State.span_extend hne]
      exact abreast_advance hs hne fun s₁ hs₁ _ => abreast_pure hs₁ _

/-- Expressions halt where the tokens are used up, by induction on the bound. -/
theorem expressions_idle (n : Nat) :
    Idles State.Exhausted (expression n) ∧ (∀ prec, Idles State.Exhausted (level n prec)) ∧
      Idles State.Exhausted (unary n) := by
  induction n with
  | zero => exact ⟨fun _ _ => rfl, fun _ _ _ => rfl, fun _ _ => rfl⟩
  | succ n ih =>
    obtain ⟨-, hlevel, hunary⟩ := ih
    refine ⟨nested_idles (assignment_idles (hlevel .or)) fun _ h => h, fun prec => ?_, ?_⟩
    · rw [level]
      split
      · exact hunary
      · exact operations_idles (hlevel prec.tighter)
    · exact unaryOr_idles (calls_idles primary_idles)

/-- **Expressions keep abreast**, by induction on the bound of the first run.  Between two tokens
    both bounds go down by less than sixteen. -/
theorem twin_expressions (tokens later : List Token) (n : Nat) : ∀ n' room,
    (16 * room ≤ n + 1 → 16 * room ≤ n' + 1 →
      TwinExprs tokens later room (expression n) (expression n')) ∧
    (∀ prec : Precedence, 16 * room ≤ n + 1 + prec.rank → 16 * room ≤ n' + 1 + prec.rank →
      TwinExprs tokens later room (level n prec) (level n' prec)) ∧
    (16 * room ≤ n + 10 → 16 * room ≤ n' + 10 →
      TwinExprs tokens later room (unary n) (unary n')) := by
  induction n with
  | zero =>
    intro n' room
    obtain ⟨hexpr, hlevel, hunary⟩ := expressions_tell tokens 0
    obtain ⟨iexpr, ilevel, iunary⟩ := expressions_idle 0
    refine ⟨fun hn _ => ?_, fun prec hn _ => ?_, fun hn _ => ?_⟩
    · -- an expression of no tokens has no room
      obtain rfl : room = 0 := by omega
      exact .vacant hexpr iexpr
    · have hrank := prec.rank_le_call
      obtain rfl : room = 0 := by omega
      exact .vacant (hlevel prec) (ilevel prec)
    · obtain rfl : room = 0 := by omega
      exact .vacant hunary iunary
  | succ n ih =>
    intro n' room
    obtain ⟨hexpr, hlevel, hunary⟩ := expressions_tell tokens (n + 1)
    obtain ⟨iexpr, ilevel, iunary⟩ := expressions_idle (n + 1)
    -- without room both runs are at their end
    cases room with
    | zero =>
      exact ⟨fun _ _ => .vacant hexpr iexpr, fun prec _ _ => .vacant (hlevel prec) (ilevel prec),
        fun _ _ => .vacant hunary iunary⟩
    | succ room =>
      refine ⟨fun hn hn' => ?_, fun prec hn hn' => ?_, fun hn hn' => ?_⟩
      · obtain ⟨m, rfl⟩ : ∃ m, n' = m + 1 := ⟨n' - 1, by omega⟩
        -- the target is read as a level of operators
        have hoperand := (ih m (room + 1)).2.1 .or (by simp only [Precedence.rank]; omega)
          (by simp only [Precedence.rank]; omega)
        have hvalue := (ih m room).1 (by omega) (by omega)
        exact (twins_assignment hoperand hvalue).nested fun _ h => h
      · have hrank := prec.rank_le_call
        obtain ⟨m, rfl⟩ : ∃ m, n' = m + 1 := ⟨n' - 1, by omega⟩
        rw [level, level]
        split
        · -- past the last level of operators
          exact (ih m (room + 1)).2.2 (by omega) (by omega)
        · next hprec =>
          -- a level of operators, whose operands are of the next tighter one
          have hlt : prec.rank < 7 := Nat.lt_of_not_le hprec
          have hcall : prec < .call := Nat.lt_trans hlt (by decide)
          have htighter := Precedence.rank_tighter hcall
          have hoperand := (ih m (room + 1)).2.1 prec.tighter (by omega) (by omega)
          exact twins_operations hoperand (by omega) (by omega)
      · -- a sign, or a call
        obtain ⟨m, rfl⟩ : ∃ m, n' = m + 1 := ⟨n' - 1, by omega⟩
        have hexpr := (ih m room).1 (by omega) (by omega)
        have hoperand := (ih m room).2.2 (by omega) (by omega)
        exact twins_unaryOr hoperand (twins_calls (twins_primary hexpr) hexpr (by omega) (by omega))

end Expressions

/-! ## Statements -/

/-- Only newlines are left. -/
def State.Blank (s : State) : Prop := ∀ t ∈ s.rest, t.kind = .newline

namespace State

/-- Where nothing is left, no newlines are left either. -/
theorem Exhausted.blank (h : s.Exhausted) : s.Blank := by
  intro t ht
  rw [show s.rest = [] from h] at ht
  exact nomatch ht

/-- Newlines up to the end are blank. -/
theorem blank_of_skipNewlines (h : s.skipNewlines.Exhausted) : s.Blank := by
  intro t ht
  have hle : s.rest.length ≤ (s.rest.takeWhile fun t => t.kind == .newline).length :=
    List.drop_eq_nil_iff.mp h
  have hall := (List.takeWhile_prefix _).eq_of_length_le hle
  rw [← hall] at ht
  exact eq_of_beq (List.all_eq_true.mp List.all_takeWhile t ht)

/-- Skipping newlines up to the end uses the tokens up. -/
theorem Blank.skipSeparators (h : s.Blank) : s.skipSeparators.Exhausted := by
  refine List.drop_eq_nil_iff.mpr ?_
  rw [← List.append_nil s.rest, List.takeWhile_append_of_pos (fun t ht => by rw [h t ht]; rfl)]
  exact Nat.le_refl _

/-- A newline, or the end, separates. -/
theorem Blank.atSeparator (h : s.Blank) (inBlock : Bool) : s.atSeparator inBlock = true := by
  unfold State.atSeparator State.kind?
  cases hrest : s.rest with
  | nil => rfl
  | cons t ts =>
    have ht : t.kind = .newline := h t (by rw [hrest]; exact List.mem_cons_self)
    rw [List.head?_cons, Option.map_some, ht]

end State

/-- Two parsers of blocks that are twins: without the closing brace they fail. -/
abbrev TwinBlocks (tokens later : List Token) (room : Nat) (p p' : Parse (List (Stmt Origin))) :
    Prop := Twins tokens later room Never (BlockFits tokens) p p'

/-- Two parsers of statements that are twins: they may end before newlines at the end. -/
abbrev TwinStmts (tokens later : List Token) (room : Nat) (p p' : Parse (Stmt Origin)) : Prop :=
  Twins tokens later room State.Blank (Stmt.Fits tokens) p p'

/-- Two parsers that are twins as long as a token is left to start with. -/
def TwinsNext (tokens later : List Token) (room : Nat) (Done : State → Prop) (p p' : Parse β) :
    Prop :=
  ∀ s, Stands tokens s → s.rest ≠ [] → tokens.length < s.position + room →
    Abreast tokens later Done (p s) (p' (s.extend later))

section Statements

variable {expression expression' : Parse (Expr Origin)}
  {block block' : Parse (List (Stmt Origin))} {statement statement' : Parse (Stmt Origin)}
  {n n' : Nat}

/-- A declaration: whether a value follows is seen at the next token, or at the end. -/
theorem twins_declaration (hexpr : TwinExprs tokens later room expression expression') :
    TwinsNext tokens later room State.Exhausted (declaration expression)
      (declaration expression') := by
  intro s hs hne hroom
  rw [declaration, declaration]
  refine abreast_advance hs hne fun s₁ hs₁ hpos₁ => ?_
  refine abreast_identifier hs₁ _ fun x s₂ hs₂ hpos₂ => ?_
  rw [get_bind, get_bind]
  refine .ite (peek_atSymbol .assign) (fun h₂ => ?_) (fun hassign => ?_) fun _ => abreast_pure hs₂ _
  · rw [State.atSymbol_of_exhausted h₂]
    exact h₂
  · have hne₂ := rest_ne_nil_of_atSymbol hassign
    refine hexpr.abreast_operand hs₂ hne₂ (by omega) (fun e s₃ hs₃ => ?_) fun _ _ h₃ => h₃
    exact abreast_pure hs₃ _

/-- A parameter is read in the same way by every run. -/
theorem twins_parameter (before : List String) :
    Twins tokens later room State.Exhausted (fun lo hi _ => lo ≤ hi) (parameter before)
      (parameter before) := by
  refine ⟨parameter_tells before, fun s h => ?_, fun s hs _ => ?_⟩
  · rw [parameter, get_bind]
    exact (halts_identifier h _).fails
  · rw [parameter, get_bind, get_bind]
    refine abreast_identifier hs _ fun x s₁ hs₁ hpos₁ => ?_
    rw [State.span_extend (hs.rest_ne_nil hs₁ (by omega))]
    split
    · exact abreast_throw rfl s₁ (s₁.extend later)
    · exact abreast_pure hs₁ x

/-- Twins inside one more function. -/
theorem Twins.inFunction {R : Nat → Nat → β → Prop} {p p' : Parse β}
    (h : Twins tokens later room Never R p p') :
    Twins tokens later room Never R (inFunction p) (inFunction p') := by
  refine ⟨tells_inFunction h.tells, fun s hend => ?_, fun s hs hroom => ?_⟩
  · rw [Parse.inFunction, get_bind]
    have hinner := h.idles { s with functions := s.functions + 1, loops := 0 } hend
    exact halts_always hinner fun _ => id
  · rw [Parse.inFunction, Parse.inFunction, get_bind, get_bind]
    have hinner : Stands tokens { s with functions := s.functions + 1, loops := 0 } :=
      hs.congr rfl rfl rfl
    exact abreast_always (h.abreast _ hinner hroom) (fun _ => ⟨rfl, rfl, rfl, rfl⟩) fun _ => id

/-- Twins inside one more loop. -/
theorem Twins.inLoop {R : Nat → Nat → β → Prop} {p p' : Parse β}
    (h : Twins tokens later room Never R p p') :
    Twins tokens later room Never R (inLoop p) (inLoop p') := by
  refine ⟨tells_inLoop h.tells, fun s hend => ?_, fun s hs hroom => ?_⟩
  · exact halts_always (h.idles { s with loops := s.loops + 1 } hend) fun _ => id
  · have hinner : Stands tokens { s with loops := s.loops + 1 } := hs.congr rfl rfl rfl
    exact abreast_always (h.abreast _ hinner hroom) (fun _ => ⟨rfl, rfl, rfl, rfl⟩) fun _ => id

/-- A definition ends with its brace, so it never halts behind it. -/
theorem twins_definition (hblock : TwinBlocks tokens later room block block') (hn : room ≤ n)
    (hn' : room ≤ n') :
    TwinsNext tokens later room Never (definition n block) (definition n' block') := by
  intro s hs hne hroom
  have hparams : Twins tokens later room Never _ (parenList n parameter) (parenList n' parameter) :=
    twins_parenList twins_parameter (fun lo lo' hi hi' x hle hlo hhi => by omega)
      (fun _ _ _ hle => hle) hn hn'
  rw [definition, definition]
  refine abreast_advance hs hne fun s₁ hs₁ hpos₁ => ?_
  refine abreast_identifier hs₁ _ fun f s₂ hs₂ hpos₂ => ?_
  refine abreast_expect hs₂ _ _ fun s₃ hs₃ hpos₃ => ?_
  refine hparams.bind hs₃ (by omega) (fun params s₄ hs₄ hrow => ?_) fun _ _ => False.elim
  have hle := hrow.le fun _ _ _ hle => hle
  refine hblock.inFunction.bind hs₄ (by omega) (fun body s₅ hs₅ _ => ?_) fun _ _ => False.elim
  exact abreast_pure hs₅ _

/-- So does a loop. -/
theorem twins_whileLoop (hexpr : TwinExprs tokens later room expression expression')
    (hblock : TwinBlocks tokens later room block block') :
    TwinsNext tokens later room Never (whileLoop expression block)
      (whileLoop expression' block') := by
  intro s hs hne hroom
  rw [whileLoop, whileLoop]
  refine abreast_advance hs hne fun s₁ hs₁ hpos₁ => ?_
  refine hexpr.bind hs₁ (by omega) (fun c s₂ hs₂ hc => ?_) fun c s₂ h₂ => ?_
  · have hlt := hc.lt
    refine hblock.inLoop.bind hs₂ (by omega) (fun body s₃ hs₃ _ => ?_) fun _ _ => False.elim
    exact abreast_pure hs₃ _
  · exact (hblock.inLoop.idles s₂ h₂).fails

/-- A `return`: whether a value follows is seen at the next token, or at the end. -/
theorem twins_returned (hexpr : TwinExprs tokens later room expression expression') :
    TwinsNext tokens later room State.Exhausted (returned expression) (returned expression') := by
  intro s hs hne hroom
  rw [returned, returned, get_bind, get_bind, State.span_extend hne,
    show (s.extend later).functions = s.functions from rfl]
  split
  · exact abreast_throw rfl s (s.extend later)
  · refine abreast_advance hs hne fun s₁ hs₁ hpos₁ => ?_
    rw [get_bind, get_bind]
    refine .ite (peek_atSeparator true) (fun h₁ => ?_) (fun _ => abreast_pure hs₁ _) fun _ => ?_
    · rw [h₁.blank.atSeparator true]
      exact h₁
    · refine hexpr.bind hs₁ (by omega) (fun e s₂ hs₂ _ => ?_) fun _ _ h₂ => h₂
      exact abreast_pure hs₂ _

/-- A `print` ends with its parenthesis. -/
theorem twins_printed (hexpr : TwinExprs tokens later room expression expression')
    (hn : room ≤ n) (hn' : room ≤ n') :
    TwinsNext tokens later room Never (printed n expression) (printed n' expression') := by
  intro s hs hne hroom
  have harguments := twins_arguments hexpr hn hn'
  rw [printed, printed]
  refine abreast_advance hs hne fun s₁ hs₁ hpos₁ => ?_
  refine abreast_expect hs₁ _ _ fun s₂ hs₂ hpos₂ => ?_
  refine harguments.bind hs₂ (by omega) (fun args s₃ hs₃ _ => ?_) fun _ _ => False.elim
  exact abreast_pure hs₃ _

/-- A `break` or `continue` is one token. -/
theorem twins_loopControl (keyword : Keyword) (node : Origin → Stmt Origin) :
    TwinsNext tokens later room Done (loopControl keyword node) (loopControl keyword node) := by
  intro s hs hne _
  rw [loopControl, get_bind, get_bind, State.span_extend hne,
    show (s.extend later).loops = s.loops from rfl]
  split
  · exact abreast_throw rfl s (s.extend later)
  · exact abreast_advance hs hne fun s₁ hs₁ _ => abreast_pure hs₁ node

/-- A simple statement halts where an expression does. -/
theorem simpleStatement_idles (hexpr : Idles State.Exhausted expression) :
    Idles State.Exhausted (simpleStatement n expression block) := by
  intro s h
  rw [simpleStatement_eq, State.kind?_of_exhausted h]
  exact (hexpr s h).bind fun _ _ h₁ => h₁

/-- At the end of the input a statement can only be an expression. -/
theorem simpleStatement_of_atEnd (h : s.atEnd = true) :
    simpleStatement n expression block s = (expression >>= fun e => pure fun a => .expr a e) s := by
  rw [simpleStatement_eq]
  unfold State.atEnd at h
  split at h
  · next hkind => rw [hkind]
  · next hkind => rw [hkind]
  · exact nomatch h

/-- The first token tells the rule in both runs. -/
theorem twins_simpleStatement (hexpr : TwinExprs tokens later room expression expression')
    (hblock : TwinBlocks tokens later room block block') (hn : room ≤ n)
    (hn' : room ≤ n') :
    Twins tokens later room State.Exhausted (NodeFits tokens)
      (simpleStatement n expression block) (simpleStatement n' expression' block') := by
  have idles : Idles State.Exhausted (simpleStatement n expression block) :=
    simpleStatement_idles hexpr.idles
  refine ⟨simpleStatement_tells n hexpr.tells hblock.tells, idles, fun s hs hroom => ?_⟩
  refine .of_sight (idles s) fun hsight => ?_
  have whole : Abreast tokens later State.Exhausted
      ((expression >>= fun e => pure fun a => .expr a e : Parse (Origin → Stmt Origin)) s)
      ((expression' >>= fun e => pure fun a => .expr a e : Parse (Origin → Stmt Origin))
        (s.extend later)) :=
    hexpr.bind hs hroom (fun e s₁ hs₁ _ => abreast_pure hs₁ _) fun _ _ h₁ => h₁
  by_cases hend : s.Exhausted
  · -- nothing is read yet that would tell one kind of statement from another
    have hfirst := State.atEnd_of_exhausted hend
    rw [simpleStatement_of_atEnd hfirst,
      simpleStatement_of_atEnd ((peek_atEnd s later hsight).trans hfirst)]
    exact whole
  · rw [simpleStatement_eq, simpleStatement_eq, State.kind?_extend hend]
    split
    · exact twins_declaration hexpr s hs hend hroom
    · exact (twins_definition hblock hn hn' s hs hend hroom).mono fun _ => False.elim
    · exact (twins_whileLoop hexpr hblock s hs hend hroom).mono fun _ => False.elim
    · exact twins_returned hexpr s hs hend hroom
    · exact twins_loopControl _ _ s hs hend hroom
    · exact twins_loopControl _ _ s hs hend hroom
    · exact (twins_printed hexpr hn hn' s hs hend hroom).mono fun _ => False.elim
    · exact hblock.bind hs hroom (fun body s₁ hs₁ _ => abreast_pure hs₁ _) fun _ _ => False.elim
    · exact whole

/-- Where nothing is left there is no branch. -/
theorem elseBranch_idles {conditional : Parse (Stmt Origin)} (hblock : Idles Never block) :
    Idles Done (elseBranch conditional block) := by
  intro s h
  rw [elseBranch, get_bind, State.atKeyword_of_exhausted h]
  exact (hblock s h).fails

/-- The branch after `else` is a block or another conditional. -/
theorem twins_elseBranch {conditional conditional' : Parse (Stmt Origin)}
    (htells : TellsNext tokens conditional (Stmt.Fits tokens))
    (hcond : TwinsNext tokens later room State.Blank conditional conditional')
    (hblock : TwinBlocks tokens later room block block') :
    TwinStmts tokens later room (elseBranch conditional block)
      (elseBranch conditional' block') := by
  refine ⟨elseBranch_tells htells hblock.tells, elseBranch_idles hblock.idles,
    fun s hs hroom => ?_⟩
  have idles : s.Exhausted → Halts State.Blank (elseBranch conditional block s) :=
    elseBranch_idles hblock.idles s
  rw [elseBranch, get_bind] at idles ⊢
  rw [elseBranch, get_bind]
  -- at the end of the tokens the first run halts, whatever follows them
  refine .ite (peek_atKeyword .ifKw) idles (fun hif => ?_) fun _ => ?_
  · -- `if`: another conditional, one level deeper
    have hne := rest_ne_nil_of_kind? (eq_of_beq hif)
    refine abreast_enter hs fun depth hdepth => ?_
    exact abreast_always (hcond _ hdepth hne hroom) (fun _ => ⟨rfl, rfl, rfl, rfl⟩) fun _ h => h
  · -- no `if`: a block must follow
    refine hblock.bind hs hroom (fun body s₁ hs₁ hbody => ?_) fun _ _ => False.elim
    rw [State.span_extend (hs.rest_ne_nil hs₁ hbody.1)]
    exact abreast_pure hs₁ _

/-- **The look-ahead for `else`.**  Where it comes to the end of the tokens, the first run goes on
    without an `else`; if more tokens follow, it halts before the newlines it looked over. -/
theorem twins_conditional {branch branch' : Parse (Stmt Origin)}
    (hexpr : TwinExprs tokens later room expression expression')
    (hblock : TwinBlocks tokens later room block block')
    (hbranch : TwinStmts tokens later room branch branch') :
    TwinsNext tokens later (room + 1) State.Blank (conditional expression block branch)
      (conditional expression' block' branch') := by
  intro s hs hne hroom
  rw [conditional, conditional, get_bind, get_bind, State.span_extend hne]
  refine abreast_advance hs hne fun s₁ hs₁ hpos₁ => ?_
  refine hexpr.bind hs₁ (by omega) (fun c s₂ hs₂ hc => ?_) fun c s₂ h₂ => ?_
  · have hlt₂ := hc.lt
    refine hblock.bind hs₂ (by omega) (fun consequent s₃ hs₃ hconsequent => ?_) fun _ _ =>
      False.elim
    have hlt₃ := hconsequent.1
    have hahead : Stands tokens s₃.skipNewlines := hs₃.drop _
    have hle : s₃.position ≤ s₃.skipNewlines.position := Nat.le_add_right ..
    rw [get_bind, get_bind]
    -- what stands behind the newlines is seen by both runs, unless the first one is at its end
    by_cases hsight : s₃.skipNewlines.rest ≠ [] ∨ EndsInput later
    · have hextend : (s₃.extend later).skipNewlines = s₃.skipNewlines.extend later :=
        State.skipWhile_extend rfl hsight
      have hsame : (s₃.skipNewlines.extend later).atKeyword .elseKw
          = s₃.skipNewlines.atKeyword .elseKw :=
        peek_atKeyword .elseKw _ later hsight
      rw [hextend, hsame]
      cases helse : s₃.skipNewlines.atKeyword .elseKw with
      -- no `else`: the newlines are left for the separators
      | false => exact abreast_pure hs₃ _
      | true =>
        -- `else`, and a branch behind it
        refine abreast_set (abreast_advance hahead ?_ fun s₄ hs₄ hpos₄ => ?_)
        · exact rest_ne_nil_of_kind? (eq_of_beq helse)
        · rw [map_eq_pure_bind, map_eq_pure_bind, bind_assoc, bind_assoc]
          refine hbranch.bind hs₄ (by omega) (fun b s₅ hs₅ _ => ?_) fun b s₅ h₅ => h₅
          exact abreast_pure hs₅ _
    · -- the first run is at its end, and the input of the second one goes on
      obtain ⟨hrest, hgoes⟩ := not_or.mp hsight
      have hend : s₃.skipNewlines.Exhausted := Classical.not_not.mp hrest
      rw [State.atKeyword_of_exhausted hend]
      exact .inr ⟨hgoes, State.blank_of_skipNewlines hend⟩
  · -- the first run halted within the condition
    exact (hblock.idles s₂ h₂).fails

/-- Where the tokens are used up there is no further statement. -/
theorem halts_noStatement {inBlock : Bool} {p : Parse (List (Stmt Origin))} (h : s.Exhausted) :
    Halts State.Exhausted
      ((if s.atEnd || (inBlock && s.atSymbol .rightBrace) then pure [] else p) s) := by
  rw [State.atEnd_of_exhausted h]
  exact h

/-- At the end the list of statements is complete. -/
theorem statements_of_atEnd {inBlock : Bool} (h : s.skipSeparators.atEnd = true) (n : Nat) :
    statements statement inBlock (n + 1) s = .ok [] s.skipSeparators := by
  rw [statements]
  show (if s.skipSeparators.atEnd || (inBlock && s.skipSeparators.atSymbol .rightBrace) then pure []
    else _ : Parse (List (Stmt Origin))) s.skipSeparators = _
  rw [h]
  rfl

/-- Statements end where only separators are left. -/
theorem statements_idle {inBlock : Bool} (h : s.skipSeparators.Exhausted) (n : Nat) :
    Halts State.Exhausted (statements statement inBlock n s) := by
  cases n with
  | zero => rfl
  | succ n =>
    rw [statements]
    exact halts_noStatement h

/-- Statements with separators between, by induction on the bounds of both runs. -/
theorem statements_abreast {inBlock : Bool}
    (hstmt : TwinStmts tokens later room statement statement') (n n' : Nat) (s : State)
    (hs : Stands tokens s) (hroom : tokens.length < s.position + room)
    (hn : tokens.length < s.position + n) (hn' : tokens.length < s.position + n') :
    Abreast tokens later State.Exhausted (statements statement inBlock n s)
      (statements statement' inBlock n' (s.extend later)) := by
  induction n generalizing n' s with
  | zero => exact absurd hs.place.position (by omega)
  | succ n ih =>
    obtain ⟨n', rfl⟩ : ∃ m, n' = m + 1 := ⟨n' - 1, by have := hs.place.position; omega⟩
    rw [statements, statements]
    refine abreast_skipSeparators hs (fun s₁ hs₁ hle₁ => ?_) fun s₁ h₁ => halts_noStatement h₁
    rw [get_bind, get_bind]
    refine .ite (peek_atStop inBlock) halts_noStatement (fun _ => abreast_pure hs₁ []) fun _ => ?_
    refine hstmt.bind hs₁ (by omega) (fun first s₂ hs₂ hfirst => ?_) fun first s₂ h₂ => ?_
    · have hlt := hfirst.sits.lt
      rw [get_bind, get_bind]
      refine .ite (peek_atSeparator inBlock) (fun h₂ => ?_) (fun _ => ?_) fun _ =>
        abreast_unexpected hs₂ _
      · rw [h₂.blank.atSeparator]
        exact (statements_idle h₂.blank.skipSeparators n).bind fun _ _ h => h
      · refine (ih n' s₂ hs₂ (by omega) (by omega) (by omega)).bind (fun others s₃ hs₃ _ => ?_)
          fun _ _ h₃ => h₃
        exact abreast_pure hs₃ _
    · -- no statement follows the newlines at the end
      rw [get_bind, h₂.atSeparator]
      exact (statements_idle h₂.skipSeparators n).bind fun _ _ h => h

/-- A block ends with its brace. -/
theorem twins_braced (hstmt : TwinStmts tokens later room statement statement') (hn : room ≤ n)
    (hn' : room ≤ n') :
    TwinBlocks tokens later (room + 1) (braced n statement) (braced n' statement') := by
  refine ⟨braced_tells hstmt.tells n, fun s h => ?_, fun s hs hroom => ?_⟩
  · rw [braced]
    exact (halts_expect h _ _).fails
  · rw [braced, braced]
    refine abreast_expect hs _ _ fun s₁ hs₁ hpos₁ => ?_
    refine abreast_enter hs₁ fun depth hs₂ => ?_
    have hpos₂ : (s₁.atDepth depth).position = s₁.position := rfl
    refine (statements_abreast hstmt n n' _ hs₂ (by omega) (by omega) (by omega)).bind
      (fun body s₃ hs₃ _ => ?_) fun body s₃ h₃ => ?_
    · have hleave : Stands tokens s₃.leave := hs₃.congr rfl rfl rfl
      exact abreast_expect hleave _ _ fun s₄ hs₄ _ => abreast_pure hs₄ body
    · have hleave : s₃.leave.Exhausted := h₃
      exact (halts_expect hleave _ _).fails

/-- A statement halts behind newlines at most. -/
theorem statement_idles (n : Nat) : Idles State.Blank (Parse.statement n) := by
  intro s h
  cases n with
  | zero => rfl
  | succ n =>
    rw [Parse.statement, get_bind, State.atKeyword_of_exhausted h]
    exact (simpleStatement_idles (expressions_idle n).1 s h).bind fun _ _ h₁ => h₁.blank

/-- A conditional, or a simple statement. -/
theorem twins_statement
    (hsimple : Twins tokens later room State.Exhausted (NodeFits tokens)
      (simpleStatement n (Parse.expression n) (Parse.block n))
      (simpleStatement n' (Parse.expression n') (Parse.block n')))
    (hcond : TwinsNext tokens later room State.Blank (ifStatement n) (ifStatement n')) :
    TwinStmts tokens later room (Parse.statement (n + 1)) (Parse.statement (n' + 1)) := by
  refine ⟨(statement_tells tokens (n + 1)).1, statement_idles _, fun s hs hroom => ?_⟩
  have idles := statement_idles (n + 1) s
  rw [Parse.statement, get_bind] at idles ⊢
  rw [Parse.statement, get_bind]
  refine .ite (peek_atKeyword .ifKw) idles (fun h => ?_) fun _ => ?_
  · exact hcond s hs (rest_ne_nil_of_kind? (eq_of_beq h)) hroom
  · refine hsimple.bind hs hroom (fun node s₁ hs₁ hnode => ?_) fun node s₁ h₁ => h₁.blank
    rw [State.span_extend (hs.rest_ne_nil hs₁ hnode.1)]
    exact abreast_pure hs₁ _

/-- A block never halts: without its brace it fails. -/
theorem block_idles (n : Nat) : Idles Never (Parse.block n) := by
  intro s h
  cases n with
  | zero => rfl
  | succ n =>
    rw [Parse.block, braced]
    exact (halts_expect h _ _).fails

/-- **Statements keep abreast**, by induction on the bound of the first run. -/
theorem twin_statements (tokens later : List Token) (n : Nat) : ∀ n' room,
    (16 * room ≤ n → 16 * room ≤ n' →
      TwinStmts tokens later room (Parse.statement n) (Parse.statement n')) ∧
    (16 * room ≤ n + 1 → 16 * room ≤ n' + 1 →
      TwinsNext tokens later room State.Blank (ifStatement n) (ifStatement n')) ∧
    (16 * room ≤ n + 1 → 16 * room ≤ n' + 1 →
      TwinBlocks tokens later room (Parse.block n) (Parse.block n')) := by
  induction n with
  | zero =>
    intro n' room
    obtain ⟨hstmt, -, hblock⟩ := statement_tells tokens 0
    refine ⟨fun hn _ => ?_, fun hn _ s hs _ hroom => ?_, fun hn _ => ?_⟩
    · -- without room both runs are at their end
      obtain rfl : room = 0 := by omega
      exact .vacant hstmt (statement_idles 0)
    · exact absurd hs.place.position (by omega)
    · obtain rfl : room = 0 := by omega
      exact .vacant hblock (block_idles 0)
  | succ n ih =>
    intro n' room
    obtain ⟨hstmt, -, hblock⟩ := statement_tells tokens (n + 1)
    obtain ⟨-, hif, -⟩ := statement_tells tokens n
    cases room with
    | zero =>
      refine ⟨fun _ _ => .vacant hstmt (statement_idles _), fun _ _ s hs _ hroom => ?_,
        fun _ _ => .vacant hblock (block_idles _)⟩
      exact absurd hs.place.position (by omega)
    | succ room =>
      refine ⟨fun hn hn' => ?_, fun hn hn' => ?_, fun hn hn' => ?_⟩
      · obtain ⟨m, rfl⟩ : ∃ m, n' = m + 1 := ⟨n' - 1, by omega⟩
        have hexpr := (twin_expressions tokens later n m (room + 1)).1 (by omega) (by omega)
        obtain ⟨-, hcond, hinner⟩ := ih m (room + 1)
        -- a statement is longer than its first token, so both bounds go down by one
        have hn : room + 1 ≤ n := by omega
        have hm : room + 1 ≤ m := by omega
        have hsimple := twins_simpleStatement hexpr (hinner (by omega) (by omega)) hn hm
        exact twins_statement hsimple (hcond (by omega) (by omega))
      · -- the branch behind `else` may be another conditional
        obtain ⟨m, rfl⟩ : ∃ m, n' = m + 1 := ⟨n' - 1, by omega⟩
        have hexpr := (twin_expressions tokens later n m room).1 (by omega) (by omega)
        obtain ⟨-, hcond, hinner⟩ := ih m room
        have hinner := hinner (by omega) (by omega)
        have hbranch := twins_elseBranch hif (hcond (by omega) (by omega)) hinner
        exact twins_conditional hexpr hinner hbranch
      · -- the statements of a block are shorter than the block
        obtain ⟨m, rfl⟩ : ∃ m, n' = m + 1 := ⟨n' - 1, by omega⟩
        exact twins_braced ((ih m room).1 (by omega) (by omega)) (by omega) (by omega)

end Statements

/-! ## Whole runs -/

/-- The parser on a token list, from the first token on. -/
def run (tokens : List Token) : EStateM.Result ParseError State (List (Stmt Origin)) :=
  statements (statement (bound tokens)) false (bound tokens) (.initial tokens)

/-- **The two runs go abreast**, from the first token on. -/
theorem run_abreast (hne : tokens ≠ []) (later : List Token) :
    Abreast tokens later State.Exhausted (run tokens) (run (tokens ++ later)) := by
  have hlength : (tokens ++ later).length = tokens.length + later.length := List.length_append
  have hstmt := (twin_statements tokens later (bound tokens) (bound (tokens ++ later))
    (tokens.length + 1)).1 (Nat.le_refl _) (by unfold bound; omega)
  refine statements_abreast hstmt _ _ (.initial tokens) (.initial hne) ?_ ?_ ?_
  · exact Nat.lt_of_lt_of_le (Nat.lt_succ_self _) (Nat.le_add_left ..)
  · show tokens.length < 0 + bound tokens
    unfold bound
    omega
  · show tokens.length < 0 + bound (tokens ++ later)
    unfold bound
    omega

/-- What ends the input adds nothing to it. -/
theorem run_inStep (hne : tokens ≠ []) (hending : EndsInput later) :
    InStep tokens later (run tokens) (run (tokens ++ later)) :=
  (run_abreast hne later).resolve_right fun h => h.1 hending

namespace SameError

variable {err err' : ParseError}

/-- An error at the end is reported at the end of either list. -/
theorem eq_of_exhausted (h : SameError tokens later s err err') (hend : s.Exhausted)
    (hcause : err.cause.isFinal = false) :
    err.span = Token.lastSpan tokens ∧ err' = ⟨err.cause, Token.endSpan tokens later⟩ := by
  cases h with
  | final h => rw [h] at hcause; exact nomatch hcause
  | inside hrest => exact absurd hend hrest
  | atEnd => exact ⟨rfl, rfl⟩

/-- Any other error is the same error. -/
theorem eq_of_not (h : SameError tokens later s err err')
    (hnot : ¬(s.Exhausted ∧ err.cause.isFinal = false)) : err' = err := by
  cases h with
  | final => rfl
  | inside => rfl
  | atEnd hend hcause => exact absurd ⟨hend, hcause⟩ hnot

/-- In a list without `eof` the input ends at the end only. -/
theorem exhausted_of_unexpectedEnd (h : SameError tokens later s err err')
    (htokens : ∀ t ∈ tokens, t.kind ≠ .eof) {expected : Expectation}
    (hcause : err.cause = .unexpectedEnd expected) : s.Exhausted := by
  cases h with
  | final h => rw [hcause] at h; exact nomatch h
  | inside hrest h =>
    rcases h with hdeep | ⟨t, ht, heof⟩
    · rw [hcause] at hdeep
      exact nomatch hdeep
    · exact absurd heof (htokens t ht)
  | atEnd hend => exact hend

end SameError

/-- Parsing fails at the end of the list: no token is left, and the fault is that the input ends
    there or that the nesting is too deep. -/
def FailsAtEnd (tokens : List Token) : Prop :=
  ∃ e s, run tokens = .error e s ∧ s.Exhausted ∧ e.cause.isFinal = false

end Parse

/-! ## The end of the input -/

open Parse

variable {tokens later : List Token} {err : ParseError}

/-- Parsing is running the rule for statements, without the state at the end. -/
theorem parse_eq_run (tokens : List Token) : parse tokens =
    match run tokens with
    | .ok body _ => .ok ⟨body⟩
    | .error e _ => .error e := rfl

/-- So it is for errors. -/
theorem parse_eq_error_iff : parse tokens = .error err ↔ ∃ s, run tokens = .error err s := by
  rw [parse_eq_run]
  constructor
  · intro h
    cases hrun : run tokens with
    | ok body s => rw [hrun] at h; exact nomatch h
    | error e s => rw [hrun] at h; cases h; exact ⟨s, rfl⟩
  · rintro ⟨s, hrun⟩
    rw [hrun]

/-- What ends the input at once spells the empty program. -/
theorem parse_of_endsInput (h : EndsInput later) : parse later = .ok ⟨[]⟩ := by
  -- the list is nothing, with `later` behind it
  have hskip : (State.initial later).skipSeparators = (State.initial []).extend later :=
    (State.initial []).skipWhile_extend rfl (.inr h)
  have hend : (State.initial later).skipSeparators.atEnd = true := by
    rw [hskip]
    exact peek_atEnd (.initial []) later (.inr h)
  have hrun : run later = .ok [] (State.initial later).skipSeparators :=
    statements_of_atEnd hend (16 * later.length + 15)
  rw [parse_eq_run, hrun]

/-- What is accepted stays accepted with an end behind it. -/
theorem parse_append_of_ok {p : Program Origin} (hending : EndsInput later)
    (h : parse tokens = .ok p) : parse (tokens ++ later) = .ok p := by
  by_cases hne : tokens = []
  · subst hne
    rw [List.nil_append, parse_of_endsInput hending]
    exact h
  · have hstep := run_inStep hne hending
    rw [parse_eq_run] at h ⊢
    generalize run tokens = r at h hstep
    generalize run (tokens ++ later) = r' at hstep
    cases hstep with
    | ok => exact h
    | error => exact nomatch h

/-- An error and its report at the end of a list with `later` behind the tokens. -/
theorem sameError_of_parse (hending : EndsInput later) (h : parse tokens = .error err) :
    ∃ s err', run tokens = .error err s ∧ parse (tokens ++ later) = .error err' ∧
      SameError tokens later s err err' := by
  have hne : tokens ≠ [] := by
    rintro rfl
    exact nomatch h
  obtain ⟨s, hrun⟩ := parse_eq_error_iff.mp h
  have hstep := run_inStep hne hending
  rw [hrun] at hstep
  rw [parse_eq_run]
  generalize run (tokens ++ later) = r' at hstep
  cases hstep with
  | error hsame => exact ⟨s, _, hrun, rfl, hsame⟩

/-- **Errors and the end.**  An error at the end is reported at the last token, or at the `eof` that
    follows; every other one stays where it is. -/
theorem parse_append_of_failure (hending : EndsInput later) (h : parse tokens = .error err) :
    (FailsAtEnd tokens → err.span = Token.lastSpan tokens ∧
      parse (tokens ++ later) = .error ⟨err.cause, Token.endSpan tokens later⟩) ∧
    (¬FailsAtEnd tokens → parse (tokens ++ later) = .error err) := by
  obtain ⟨s, err', hrun, hparse, hsame⟩ := sameError_of_parse hending h
  refine ⟨fun ⟨e, s', hrun', hend, hcause⟩ => ?_, fun hnot => ?_⟩
  · obtain ⟨rfl, rfl⟩ : err = e ∧ s = s' := by
      rw [hrun] at hrun'
      exact ⟨by injection hrun', by injection hrun'⟩
    obtain ⟨hspan, rfl⟩ := hsame.eq_of_exhausted hend hcause
    exact ⟨hspan, hparse⟩
  · rw [hparse, hsame.eq_of_not fun ⟨hend, hcause⟩ => hnot ⟨err, s, hrun, hend, hcause⟩]

/-- An error about the end of the input is one at the end. -/
theorem failsAtEnd_of_unexpectedEnd (htokens : ∀ t ∈ tokens, t.kind ≠ .eof)
    (h : parse tokens = .error err) (expected : Expectation)
    (hcause : err.cause = .unexpectedEnd expected) : FailsAtEnd tokens := by
  obtain ⟨s, err', hrun, -, hsame⟩ := sameError_of_parse (show EndsInput [] from nofun) h
  exact ⟨err, s, hrun, hsame.exhausted_of_unexpectedEnd htokens hcause, by rw [hcause]; rfl⟩

/-- A list is accepted just if it is with an end behind it, as the same program. -/
theorem parse_append_eq_ok_iff (hending : EndsInput later) (p : Program Origin) :
    parse tokens = .ok p ↔ parse (tokens ++ later) = .ok p := by
  refine ⟨parse_append_of_ok hending, fun h => ?_⟩
  cases hparse : parse tokens with
  | ok q =>
    rw [parse_append_of_ok hending hparse] at h
    exact h
  | error err =>
    obtain ⟨_, _, _, herror, _⟩ := sameError_of_parse hending hparse
    rw [herror] at h
    exact nomatch h

/-- Of what ends the input only the first token counts. -/
theorem parse_append_congr {later' : List Token} (hending : EndsInput later)
    (hending' : EndsInput later') (hhead : later.head? = later'.head?) :
    parse (tokens ++ later) = parse (tokens ++ later') := by
  cases hparse : parse tokens with
  | ok p => rw [parse_append_of_ok hending hparse, parse_append_of_ok hending' hparse]
  | error err =>
    obtain ⟨hatEnd, hinside⟩ := parse_append_of_failure hending hparse
    obtain ⟨hatEnd', hinside'⟩ := parse_append_of_failure hending' hparse
    by_cases hend : FailsAtEnd tokens
    · rw [(hatEnd hend).2, (hatEnd' hend).2, Token.endSpan, Token.endSpan, hhead]
    · rw [hinside hend, hinside' hend]

/-- **An `eof` ends the input.**  Nothing behind it is read, and a list without it is parsed in the
    same way.  Where that fails at the end, which is so whenever the input ends too early, the place
    of the error is that of the last token instead of the `eof`. -/
theorem parse_append_eof (tokens more : List Token) (e : Token) (he : e.kind = .eof)
    (htokens : ∀ t ∈ tokens, t.kind ≠ .eof) :
    parse (tokens ++ [e] ++ more) = parse (tokens ++ [e]) ∧
    (∀ p, parse tokens = .ok p ↔ parse (tokens ++ [e]) = .ok p) ∧
    ∀ err, parse tokens = .error err →
      (∀ expected, err.cause = .unexpectedEnd expected → FailsAtEnd tokens) ∧
      (FailsAtEnd tokens → err.span = Token.lastSpan tokens ∧
        parse (tokens ++ [e]) = .error ⟨err.cause, e.span⟩) ∧
      (¬FailsAtEnd tokens → parse (tokens ++ [e]) = .error err) := by
  have hone : EndsInput [e] := fun t ht => Option.some.inj ht ▸ he
  have hmore : EndsInput (e :: more) := fun t ht => Option.some.inj ht ▸ he
  refine ⟨?_, parse_append_eq_ok_iff hone, fun err herr => ?_⟩
  · rw [List.append_assoc]
    exact parse_append_congr hmore hone rfl
  · exact ⟨failsAtEnd_of_unexpectedEnd htokens herr, parse_append_of_failure hone herr⟩

/-- A declaration that breaks off, without and with an `eof` behind it. -/
theorem parse_append_eof_let :
    let word : Token := ⟨.keyword .letKw, "let", ⟨1, 1⟩⟩
    let e : Token := ⟨.eof, "", ⟨1, 4⟩⟩
    parse [word] = .error ⟨.unexpectedEnd .variableName, ⟨1, 1⟩⟩ ∧
    parse [word, e] = .error ⟨.unexpectedEnd .variableName, ⟨1, 4⟩⟩ ∧
    parse [word, e, word] = parse [word, e] := by
  intro word e
  have hparse : parse [word] = .error ⟨.unexpectedEnd .variableName, ⟨1, 1⟩⟩ := rfl
  have htokens : ∀ t ∈ [word], t.kind ≠ .eof := by
    intro t ht
    rw [List.mem_singleton.mp ht]
    nofun
  obtain ⟨hmore, -, herror⟩ := parse_append_eof [word] [word] e rfl htokens
  obtain ⟨hends, hatEnd, -⟩ := herror _ hparse
  exact ⟨hparse, (hatEnd (hends _ rfl)).2, hmore⟩

/-! ## Errors -/

/-- **Errors are final**: an error that is not about the end of the input or the limit on nesting
    stays, whatever follows. -/
theorem parse_append_of_error (later : List Token) (h : parse tokens = .error err)
    (hend : ∀ expected, err.cause ≠ .unexpectedEnd expected) (hdeep : err.cause ≠ .nestingTooDeep) :
    parse (tokens ++ later) = .error err := by
  have hfinal : err.cause.isFinal = true := ParseFault.isFinal_iff.mpr ⟨hend, hdeep⟩
  have hne : tokens ≠ [] := by
    rintro rfl
    exact nomatch h
  obtain ⟨s, hrun⟩ := parse_eq_error_iff.mp h
  have habreast := run_abreast hne later
  rw [hrun] at habreast
  rw [parse_eq_run]
  generalize run (tokens ++ later) = r' at habreast
  rcases habreast with hstep | ⟨-, hhalts⟩
  · cases hstep with
    | error hsame =>
      rw [hsame.eq_of_not fun ⟨_, hcause⟩ => ?_]
      rw [hfinal] at hcause
      exact nomatch hcause
  · -- a run that halts fails for one of the two other reasons
    exact absurd (hfinal.symm.trans hhalts) nofun

/-- The left side of `=` is wrong before the right one is there, and after it. -/
theorem parse_append_of_error_assignment :
    let tokens : List Token := [⟨.integer 1, "1", ⟨1, 1⟩⟩, ⟨.symbol .assign, "=", ⟨1, 3⟩⟩]
    let later : List Token := [⟨.integer 2, "2", ⟨1, 5⟩⟩, ⟨.eof, "", ⟨1, 6⟩⟩]
    parse tokens = .error ⟨.invalidAssignmentTarget, ⟨1, 1⟩⟩ ∧
    parse (tokens ++ later) = .error ⟨.invalidAssignmentTarget, ⟨1, 1⟩⟩ := by
  intro tokens later
  have hparse : parse tokens = .error ⟨.invalidAssignmentTarget, ⟨1, 1⟩⟩ := rfl
  exact ⟨hparse, parse_append_of_error later hparse nofun nofun⟩

end Scriptlet
