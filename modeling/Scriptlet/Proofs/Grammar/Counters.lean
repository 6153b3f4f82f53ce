/-
  Counters: every rule of the grammar is booked.

  1. **Rules** — one lemma for each rule.  A rule may be run with any edges that fit, and each of
     the two runs may have a bound of its own that is large enough for the tokens left.
  2. **Expressions and statements** (`steady_expressions`, `steady_statement`) — by induction on the
     bound, of which every token that is left needs sixteen.
  3. **The result (`bookkeeping`)** — no rule reaches its bound, leaves a level that was not entered
     or looks past the token list, and the counters are what the books say.
-/
import Scriptlet.Proofs.Grammar.Books
import Scriptlet.Proofs.Grammar.Reading
import Scriptlet.Proofs.Grammar.StatementSoundness

namespace Scriptlet.Parse

variable {β : Type} {tokens : List Token} {s : State} {room n n' : Nat} {edges : Edges}

/-! ## Expressions -/

section Expressions

variable {operand operand' value value' callee callee' argument argument' call call' inner inner' :
  Parse (Expr Origin)} {prec : Precedence}

/-- **An assignment or an operation**: both runs read the same expression, which tells them which. -/
theorem steady_assignment (hoperand : Steady tokens (room + 1) 1 operand operand')
    (hvalue : Steady tokens room 1 value value') :
    Steady tokens (room + 1) 1 (assignment operand value) (assignment operand' value') := by
  intro s hs hroom
  rw [assignment, assignment, get_bind, get_bind]
  refine hoperand.bind (.refl hs) hroom fun target s₁ hs₁ => ?_
  rw [get_bind, get_bind]
  refine .ite (fun hassign => ?_) fun _ => booked_pure hs₁ _ (Nat.le_refl 1)
  cases bareName? target s.position s₁.position with
  | none => exact booked_error hs₁.brokenOff _
  | some x =>
    refine booked_advance ?_
    refine booked_skipNewlines (hs₁.next_of_ne_nil (rest_ne_nil_of_atSymbol hassign))
      fun s₂ hs₂ => ?_
    refine hvalue.bind hs₂ (by omega) fun e s₃ hs₃ => ?_
    exact booked_node hs₃ _ _ _ (by omega)

/-- A link of operators reads its symbol, and then an operand. -/
theorem steadyLink_operation {start : Nat} (hoperand : Steady tokens room 1 operand operand') :
    SteadyLink tokens room (fun s => (s.operator? prec).isSome) (operationLink prec operand start)
      (operationLink prec operand' start) := by
  refine ⟨fun _ _ => rfl, fun left s hs hroom hmore => ?_⟩
  obtain ⟨op, hop⟩ := Option.isSome_iff_exists.mp hmore
  rw [operationLink, operationLink, get_bind, get_bind, hop]
  refine booked_advance ?_
  refine booked_skipNewlines ((Kept.refl hs).next_of_ne_nil (rest_ne_nil_of_operator? hop))
    fun s₁ hs₁ => ?_
  refine hoperand.bind hs₁ (by omega) fun right s₂ hs₂ => ?_
  exact booked_node hs₂ _ _ _ (by omega)

theorem steady_operations (hoperand : Steady tokens room 1 operand operand') (hn : room ≤ n)
    (hn' : room ≤ n') :
    Steady tokens room 1 (edges.operations n prec operand) (operations n' prec operand') := by
  intro s hs hroom
  rw [Edges.operations, operations, get_bind, get_bind]
  exact steady_chain hoperand (steadyLink_operation hoperand) hn hn' s hs hroom

/-- A link of calls reads its parenthesis, and then the arguments. -/
theorem steadyLink_call {start : Nat} (hargument : Steady tokens room 1 argument argument')
    (hn : room ≤ n) (hn' : room ≤ n') :
    SteadyLink tokens (room + 1) (·.atSymbol .leftParen) (edges.callLink n argument start)
      (callLink n' argument' start) := by
  refine ⟨fun _ _ => rfl, fun left s hs hroom hmore => ?_⟩
  rw [Edges.callLink, callLink, get_bind, get_bind]
  refine booked_advance ?_
  have hs₁ := (Kept.refl hs).next_of_ne_nil (rest_ne_nil_of_atSymbol hmore)
  refine (steady_parenList (fun _ => hargument) hn hn').bind hs₁ (by omega)
    fun arguments s₂ hs₂ => ?_
  exact booked_node hs₂ _ _ _ (by omega)

theorem steady_calls (hcallee : Steady tokens (room + 1) 1 callee callee')
    (hargument : Steady tokens room 1 argument argument') (hn : room < n) (hn' : room < n') :
    Steady tokens (room + 1) 1 (edges.calls n callee argument) (calls n' callee' argument') := by
  intro s hs hroom
  rw [Edges.calls, calls, get_bind, get_bind]
  exact steady_chain hcallee (steadyLink_call hargument (by omega) (by omega)) hn hn' s hs hroom

/-- **No index goes past the token list**: a text is looked up only where there is a next token. -/
theorem leaf?_of_fits (hedges : edges.Fits tokens) (hs : Regular tokens s) :
    edges.leaf? s = s.rest.head?.bind leaf? := by
  refine Edges.leaf?_eq fun t ts hrest => ?_
  have hlt : s.position < tokens.length := by
    have hlength := hs.length
    rw [hrest, List.length_cons] at hlength
    omega
  have hnext : tokens[s.position] :: tokens.drop (s.position + 1) = t :: ts := by
    rw [← List.drop_eq_getElem_cons hlt, ← hs.rest, hrest]
  rw [hedges.token s hlt hs.rest]
  exact (List.cons.inj hnext).1

/-- **An operand**, in parentheses one level deeper. -/
theorem steady_primary (hedges : edges.Fits tokens) (hinner : Steady tokens room 1 inner inner') :
    Steady tokens (room + 1) 1 (edges.primary inner) (primary inner') := by
  intro s hs hroom
  have hkept := Kept.refl hs
  rw [Edges.primary, primary, get_bind, get_bind]
  refine .ite (fun hparen => ?_) fun _ => ?_
  · -- in parentheses: the closing one is read last
    refine booked_advance ?_
    refine booked_skipNewlines (hkept.next_of_ne_nil (rest_ne_nil_of_atSymbol hparen))
      fun s₁ hs₁ => ?_
    refine hinner.bind hs₁ (by omega) fun e s₂ hs₂ => ?_
    refine booked_skipNewlines hs₂ fun s₃ hs₃ => ?_
    exact booked_expect hs₃ _ _ fun s₄ hs₄ => booked_pure hs₄ e (by omega)
  · rw [leaf?_of_fits hedges hs]
    cases hleaf : s.rest.head?.bind leaf? with
    | none => exact booked_error hkept.brokenOff _
    | some node =>
      -- a token stands there, so reading it is booked
      have hne : s.rest ≠ [] := by
        intro hrest
        rw [hrest] at hleaf
        exact Option.some_ne_none node hleaf.symm
      exact booked_advance (booked_node (hkept.next_of_ne_nil hne) _ _ node (Nat.le_refl 1))

/-- A unary operator nests its operand; without one the call is read on the same level. -/
theorem steady_unaryOr (hedges : edges.Fits tokens)
    (hoperand : Steady tokens room 1 operand operand')
    (hcall : Steady tokens (room + 1) 1 call call') :
    Steady tokens (room + 1) 1 (edges.unaryOr operand call) (unaryOr operand' call') := by
  intro s hs hroom
  rw [Edges.unaryOr, unaryOr, get_bind, get_bind]
  cases hop : s.unaryOp? with
  -- no sign: nothing is nested
  | none => exact hcall s hs hroom
  | some op =>
    have hne : s.rest ≠ [] := by
      intro hrest
      unfold State.unaryOp? State.kind? at hop
      rw [hrest] at hop
      exact Option.some_ne_none op hop.symm
    -- the sign is read first, and its operand one level deeper
    refine booked_advance ?_
    refine (hoperand.nested hedges).bind ((Kept.refl hs).next_of_ne_nil hne) (by omega)
      fun e s₁ hs₁ => ?_
    exact booked_node hs₁ _ _ _ (by omega)

/-- **Expressions are booked**, by induction on the bound.  Between two tokens the bound is taken
    down rule by rule, so how much of it is needed depends on the rule. -/
theorem steady_expressions (hedges : edges.Fits tokens) (n : Nat) : ∀ n' room,
    (16 * room ≤ n + 1 → 16 * room ≤ n' + 1 →
      Steady tokens room 1 (edges.expression n) (expression n')) ∧
    (∀ prec : Precedence, 16 * room ≤ n + 1 + prec.rank → 16 * room ≤ n' + 1 + prec.rank →
      Steady tokens room 1 (edges.level n prec) (level n' prec)) ∧
    (16 * room ≤ n + 10 → 16 * room ≤ n' + 10 →
      Steady tokens room 1 (edges.unary n) (unary n')) := by
  induction n with
  | zero =>
    intro n' room
    -- without room there is nothing to read
    refine ⟨fun hn _ => ?_, fun prec hn _ => ?_, fun hn _ => ?_⟩
    · obtain rfl : room = 0 := by omega
      exact .vacant
    · have hrank := prec.rank_le_call
      obtain rfl : room = 0 := by omega
      exact .vacant
    · obtain rfl : room = 0 := by omega
      exact .vacant
  | succ n ih =>
    intro n' room
    cases room with
    -- no token is left, so no rule is run
    | zero => exact ⟨fun _ _ => .vacant, fun _ _ _ => .vacant, fun _ _ => .vacant⟩
    | succ room =>
      refine ⟨fun hn hn' => ?_, fun prec hn hn' => ?_, fun hn hn' => ?_⟩
      · obtain ⟨m, rfl⟩ : ∃ m, n' = m + 1 := ⟨n' - 1, by omega⟩
        -- an assignment, whose value stands behind `=`
        have hoperand := (ih m (room + 1)).2.1 .or (by simp only [Precedence.rank]; omega)
          (by simp only [Precedence.rank]; omega)
        have hvalue := (ih m room).1 (by omega) (by omega)
        exact (steady_assignment hoperand hvalue).nested hedges
      · have hrank := prec.rank_le_call
        obtain ⟨m, rfl⟩ : ∃ m, n' = m + 1 := ⟨n' - 1, by omega⟩
        rw [Edges.level, level]
        split
        · -- past the last level of operators
          exact (ih m (room + 1)).2.2 (by omega) (by omega)
        · next hprec =>
          have hlt : prec.rank < 7 := Nat.lt_of_not_le hprec
          -- operands are of the next tighter level
          have htighter := Precedence.rank_tighter (show prec < .call from Nat.lt_succ_of_lt hlt)
          exact steady_operations ((ih m (room + 1)).2.1 prec.tighter (by omega) (by omega))
            (by omega) (by omega)
      · obtain ⟨m, rfl⟩ : ∃ m, n' = m + 1 := ⟨n' - 1, by omega⟩
        -- a sign, or a call
        have hexpr := (ih m room).1 (by omega) (by omega)
        have hoperand := (ih m room).2.2 (by omega) (by omega)
        exact steady_unaryOr hedges hoperand
          (steady_calls (steady_primary hedges hexpr) hexpr (by omega) (by omega))

end Expressions

/-! ## Statements -/

section Statements

variable {expression expression' : Parse (Expr Origin)}
  {block block' : Parse (List (Stmt Origin))} {statement statement' : Parse (Stmt Origin)}

/-- The word that a rule starts with, if any is left. -/
theorem Kept.start (hs : Regular tokens s) : Kept tokens 0 s s.next :=
  (Kept.refl hs).next.mono (Nat.zero_le _)

/-- A declaration, with an initial value or without one. -/
theorem steady_declaration (hexpr : Steady tokens room 1 expression expression') :
    Steady tokens room 1 (declaration expression) (declaration expression') := by
  intro s hs hroom
  rw [declaration, declaration]
  refine booked_advance ?_
  refine booked_identifier (.start hs) _ fun x s₁ hs₁ => ?_
  rw [get_bind, get_bind]
  refine .ite (fun hassign => ?_) fun _ => booked_pure hs₁ _ (Nat.le_refl 1)
  refine booked_advance ?_
  refine booked_skipNewlines (hs₁.next_of_ne_nil (rest_ne_nil_of_atSymbol hassign))
    fun s₂ hs₂ => ?_
  exact hexpr.bind hs₂ (by omega) fun e s₃ hs₃ => booked_pure hs₃ _ (by omega)

theorem steady_parameter (before : List String) :
    Steady tokens room 1 (parameter before) (parameter before) := by
  intro s hs _
  rw [parameter, get_bind]
  refine booked_identifier (.refl hs) _ fun x s₁ hs₁ => ?_
  exact .ite (fun _ => booked_error hs₁.brokenOff _) fun _ => booked_pure hs₁ x (Nat.le_refl 1)

/-- A definition: its body is read in the context of a function. -/
theorem steady_definition (hblock : Steady tokens room 1 block block') (hn : room ≤ n)
    (hn' : room ≤ n') :
    Steady tokens room 1 (edges.definition n block) (definition n' block') := by
  intro s hs hroom
  rw [Edges.definition, definition]
  refine booked_advance ?_
  refine booked_identifier (.start hs) _ fun f s₁ hs₁ => ?_
  refine booked_expect hs₁ _ _ fun s₂ hs₂ => ?_
  refine (steady_parenList steady_parameter hn hn').bind hs₂ (by omega) fun params s₃ hs₃ => ?_
  exact hblock.inFunction.bind hs₃ (by omega) fun body s₄ hs₄ => booked_pure hs₄ _ (by omega)

/-- A loop: its body is read in the context of a loop. -/
theorem steady_whileLoop (hexpr : Steady tokens room 1 expression expression')
    (hblock : Steady tokens room 1 block block') :
    Steady tokens room 1 (whileLoop expression block) (whileLoop expression' block') := by
  intro s hs hroom
  rw [whileLoop, whileLoop]
  refine booked_advance ?_
  refine hexpr.bind (.start hs) hroom fun c s₁ hs₁ => ?_
  exact hblock.inLoop.bind hs₁ (by omega) fun body s₂ hs₂ => booked_pure hs₂ _ (by omega)

theorem steady_printed (hexpr : Steady tokens room 1 expression expression') (hn : room ≤ n)
    (hn' : room ≤ n') :
    Steady tokens room 1 (edges.printed n expression) (printed n' expression') := by
  intro s hs hroom
  rw [Edges.printed, printed]
  refine booked_advance ?_
  refine booked_expect (.start hs) _ _ fun s₁ hs₁ => ?_
  exact (steady_parenList (fun _ => hexpr) hn hn').bind hs₁ (by omega) fun arguments s₂ hs₂ =>
    booked_pure hs₂ _ (by omega)

/-- A `return` needs no value, so all it is sure to read is its keyword. -/
theorem booked_returned (hexpr : Steady tokens room 1 expression expression')
    (hs : Regular tokens s) (hroom : s.rest.length < room) :
    Booked s (Kept tokens (min 1 s.rest.length) s) (returned expression s)
      (returned expression' s) := by
  have hkept := Kept.refl hs
  rw [returned, returned, get_bind, get_bind]
  refine .ite (fun _ => booked_error hkept.brokenOff _) fun _ => ?_
  refine booked_advance ?_
  rw [get_bind, get_bind]
  refine .ite (fun _ => booked_pure hkept.next _ (by omega)) fun _ => ?_
  exact hexpr.bind hkept.next (by omega) fun e s₁ hs₁ => booked_pure hs₁ _ (by omega)

/-- `break` and `continue` are refused outside of a loop, which changes no counter. -/
theorem booked_loopControl (hs : Regular tokens s) (keyword : Keyword)
    (node : Origin → Stmt Origin) :
    Booked s (Kept tokens (min 1 s.rest.length) s) (loopControl keyword node s)
      (loopControl keyword node s) := by
  have hkept := Kept.refl hs
  rw [loopControl, get_bind]
  refine .ite (fun _ => booked_error hkept.brokenOff _) fun _ => ?_
  exact booked_advance (booked_pure hkept.next _ (by omega))

/-- The first word decides between the rules for statements, whatever the edges. -/
theorem simpleStatement_of_edges (n : Nat) (s : State) :
    edges.simpleStatement n expression block s =
      match s.kind? with
      | some (.keyword .fnKw) => edges.definition n block s
      | some (.keyword .printKw) => edges.printed n expression s
      | _ => simpleStatement n expression block s := by
  rw [simpleStatement_eq]
  unfold Edges.simpleStatement
  rw [get_bind]
  cases s.kind? with
  | none => rfl
  | some kind =>
    cases kind with
    | keyword k => cases k <;> rfl
    | symbol x => cases x <;> rfl
    | _ => rfl

theorem steady_simpleStatement (hexpr : Steady tokens room 1 expression expression')
    (hblock : Steady tokens room 1 block block') (hn : room ≤ n) (hn' : room ≤ n') :
    Steady tokens room 1 (edges.simpleStatement n expression block)
      (simpleStatement n' expression' block') := by
  intro s hs hroom
  -- a rule that reads its keyword reads a token
  have atKind {kind : TokenKind} {r r' : EStateM.Result ParseError State (Origin → Stmt Origin)}
      (hkind : s.kind? = some kind) (h : Booked s (Kept tokens (min 1 s.rest.length) s) r r') :
      Booked s (Kept tokens 1 s) r r' := by
    have hlength := List.length_pos_iff.mpr (rest_ne_nil_of_kind? hkind)
    exact h.rebase (Kept.refl hs).brokenOff fun s' h' => h'.mono (by omega)
  rw [simpleStatement_of_edges]
  -- a definition and a print, whose lists are bounded
  split
  · next hkind =>
    rw [simpleStatement_eq, hkind]
    exact steady_definition hblock hn hn' s hs hroom
  · next hkind =>
    rw [simpleStatement_eq, hkind]
    exact steady_printed hexpr hn hn' s hs hroom
  · -- every other rule has no list of its own
    next hfn hprint =>
    rw [simpleStatement_eq, simpleStatement_eq]
    split
    · exact steady_declaration hexpr s hs hroom
    · next hkind => exact absurd hkind hfn
    · exact steady_whileLoop hexpr hblock s hs hroom
    · next hkind => exact atKind hkind (booked_returned hexpr hs hroom)
    · next hkind => exact atKind hkind (booked_loopControl hs _ _)
    · next hkind => exact atKind hkind (booked_loopControl hs _ _)
    · next hkind => exact absurd hkind hprint
    · exact hblock.bind (.refl hs) hroom fun body s₁ hs₁ => booked_pure hs₁ _ (Nat.le_refl 1)
    · exact hexpr.bind (.refl hs) hroom fun e s₁ hs₁ => booked_pure hs₁ _ (Nat.le_refl 1)

/-- Two parsers that are steady from an `if` on. -/
def SteadyIf (tokens : List Token) (room : Nat) (p p' : Parse (Stmt Origin)) : Prop :=
  ∀ s, Regular tokens s → s.atKeyword .ifKw = true → s.rest.length < room →
    Booked s (Kept tokens 1 s) (p s) (p' s)

/-- Behind `else` stands a conditional, one level deeper, or a block. -/
theorem steady_elseBranch {conditional conditional' : Parse (Stmt Origin)}
    (hedges : edges.Fits tokens) (hconditional : SteadyIf tokens room conditional conditional')
    (hblock : Steady tokens room 1 block block') :
    Steady tokens room 1 (edges.elseBranch conditional block) (elseBranch conditional' block') := by
  intro s hs hroom
  rw [Edges.elseBranch, elseBranch, get_bind, get_bind]
  refine .ite (fun hif => ?_) fun _ => ?_
  · exact booked_nested hedges hs fun hlt => hconditional _ (hs.atDepth hlt) hif hroom
  · refine hblock.bind (.refl hs) hroom fun body s₁ hs₁ => ?_
    exact booked_node hs₁ _ _ (Stmt.block · body) (Nat.le_refl 1)

/-- The word before the condition is read if there is one, so there it may take one token more. -/
theorem booked_conditional {branch branch' : Parse (Stmt Origin)}
    (hexpr : Steady tokens room 1 expression expression')
    (hblock : Steady tokens room 1 block block')
    (hbranch : Steady tokens room 1 branch branch') (hs : Regular tokens s)
    (hroom : s.rest.length - 1 < room) :
    Booked s (Kept tokens 1 s) (conditional expression block branch s)
      (conditional expression' block' branch' s) := by
  rw [conditional, conditional, get_bind, get_bind]
  refine booked_advance ?_
  refine hexpr.bind (Kept.refl hs).next (by omega) fun c s₁ hs₁ => ?_
  refine hblock.bind hs₁ (by omega) fun consequent s₂ hs₂ => ?_
  rw [get_bind, get_bind]
  -- without an `else` the newlines before it are not read
  refine .ite (fun helse => ?_) fun _ => booked_node hs₂ _ _ (Stmt.cond · c consequent none)
    (by omega)
  -- `else` itself is a token more
  have hs₃ := (hs₂.skipWhile _).next_of_ne_nil (rest_ne_nil_of_kind? (eq_of_beq helse))
  rw [map_eq_pure_bind, map_eq_pure_bind, bind_assoc, bind_assoc]
  refine hbranch.bind hs₃ (by omega) fun alternative s₄ hs₄ => ?_
  exact booked_node hs₄ _ _ (Stmt.cond · c consequent (some alternative)) (by omega)

theorem booked_ifStatement (hedges : edges.Fits tokens)
    (hexpr : Steady tokens room 1 (edges.expression n) (Parse.expression n'))
    (hif : SteadyIf tokens room (edges.ifStatement n) (ifStatement n'))
    (hblock : Steady tokens room 1 (edges.block n) (Parse.block n')) (hs : Regular tokens s)
    (hroom : s.rest.length - 1 < room) :
    Booked s (Kept tokens 1 s) (edges.ifStatement (n + 1) s) (ifStatement (n' + 1) s) :=
  booked_conditional hexpr hblock (steady_elseBranch hedges hif hblock) hs hroom

/-- **A list of statements**: each of them reads a token, so no bound is reached. -/
theorem steady_statements (hstmt : Steady tokens room 1 statement statement') (inBlock : Bool)
    (hn : room ≤ n) (hn' : room ≤ n') :
    Steady tokens room 0 (edges.statements statement inBlock n)
      (statements statement' inBlock n') := by
  induction n generalizing n' room with
  | zero =>
    obtain rfl := Nat.le_zero.mp hn
    exact .vacant
  | succ n ih =>
    intro s hs hroom
    obtain ⟨n', rfl⟩ : ∃ m, n' = m + 1 := ⟨n' - 1, by omega⟩
    -- a statement reads a token, so less is left for the others
    have hothers : Steady tokens (room - 1) 0 (edges.statements statement inBlock n)
        (statements statement' inBlock n') :=
      ih (hstmt.mono (by omega)) (by omega) (by omega)
    rw [Edges.statements, statements]
    refine steady_skipSeparators.bind (.refl hs) hroom fun _ s₁ hs₁ => ?_
    rw [get_bind, get_bind]
    -- the list stops here, or goes on
    refine .ite (fun _ => booked_pure hs₁ _ (Nat.le_refl 0)) fun _ => ?_
    refine hstmt.bind hs₁ hroom fun first s₂ hs₂ => ?_
    rw [get_bind, get_bind]
    -- behind a statement a separator is due
    refine .ite (fun _ => ?_) fun _ => booked_error hs₂.brokenOff _
    exact hothers.bind hs₂ (by omega) fun others s₃ hs₃ => booked_pure hs₃ _ (Nat.zero_le _)

/-- A block leaves the level it entered only where its statements end well. -/
theorem steady_braced (hedges : edges.Fits tokens)
    (hstmt : Steady tokens room 1 statement statement') (hn : room ≤ n) (hn' : room ≤ n') :
    Steady tokens (room + 1) 1 (edges.braced n statement) (braced n' statement') := by
  intro s hs hroom
  rw [Edges.braced, braced]
  refine booked_expect (.refl hs) _ _ fun s₁ hs₁ => ?_
  refine booked_enter hs₁.brokenOff fun hlt => ?_
  have hlength := hs₁.length
  -- a level is entered behind the brace
  have hdeeper : BrokenOff s (s₁.atDepth (s₁.depth + 1)) :=
    ((Climbed.of_kept hs₁).enter hlt).brokenOff
  have hbody : Steady tokens room 0 (edges.statements statement true n)
      (statements statement' true n') := steady_statements hstmt true hn hn'
  refine ((hbody _ (hs₁.after.atDepth hlt) (show s₁.rest.length < room by omega)).rebase hdeeper
    fun _ h => h).bind fun body s₂ hs₂ => ?_
  show Booked s _ ((expect _ _ >>= fun _ => pure body) (edges.leave s₂))
    ((expect _ _ >>= fun _ => pure body) s₂.leave)
  -- it is left again where the statements end well
  rw [hedges.leave s₂ (Nat.lt_of_lt_of_eq (Nat.succ_pos _) hs₂.depth.symm)]
  exact booked_expect (hs₁.trans hs₂.leave) _ _ fun s₃ hs₃ => booked_pure hs₃ body (by omega)

/-- **Statements are booked**, by induction on the bound. -/
theorem steady_statement (hedges : edges.Fits tokens) (n : Nat) : ∀ n' room,
    (16 * room ≤ n → 16 * room ≤ n' →
      Steady tokens room 1 (edges.statement n) (Parse.statement n')) ∧
    (16 * room ≤ n + 1 → 16 * room ≤ n' + 1 →
      SteadyIf tokens room (edges.ifStatement n) (ifStatement n')) ∧
    (16 * room ≤ n + 1 → 16 * room ≤ n' + 1 →
      Steady tokens room 1 (edges.block n) (Parse.block n')) := by
  induction n with
  | zero =>
    intro n' room
    refine ⟨fun hn _ => ?_, fun hn _ => ?_, fun hn _ => ?_⟩
    all_goals obtain rfl : room = 0 := by omega
    · exact .vacant
    · -- no token is left for an `if`
      exact fun _ _ _ h => absurd h (Nat.not_lt_zero _)
    · exact .vacant
  | succ n ih =>
    intro n' room
    cases room with
    | zero =>
      exact ⟨fun _ _ => .vacant, fun _ _ _ _ _ h => absurd h (Nat.not_lt_zero _),
        fun _ _ => .vacant⟩
    | succ room =>
      refine ⟨fun hn hn' s hs hroom => ?_, fun hn hn' s hs hat hroom => ?_, fun hn hn' => ?_⟩
      · obtain ⟨m, rfl⟩ : ∃ m, n' = m + 1 := ⟨n' - 1, by omega⟩
        have hexpr := (steady_expressions hedges n m (room + 1)).1 (by omega) (by omega)
        obtain ⟨-, hif, hblock⟩ := ih m (room + 1)
        rw [Edges.statement, Parse.statement, get_bind, get_bind]
        -- `if`: a conditional
        refine .ite (fun h => hif (by omega) (by omega) s hs h hroom) fun _ => ?_
        -- any other statement
        refine (steady_simpleStatement hexpr (hblock (by omega) (by omega)) (by omega)
          (by omega)).bind (.refl hs) hroom fun node s₁ hs₁ => ?_
        exact booked_node hs₁ _ _ node (Nat.le_refl 1)
      · obtain ⟨m, rfl⟩ : ∃ m, n' = m + 1 := ⟨n' - 1, by omega⟩
        have hexpr := (steady_expressions hedges n m room).1 (by omega) (by omega)
        obtain ⟨-, hif, hblock⟩ := ih m room
        -- the `if` itself is a token
        have hlength := List.length_pos_iff.mpr (rest_ne_nil_of_kind? (eq_of_beq hat))
        exact booked_ifStatement hedges hexpr (hif (by omega) (by omega))
          (hblock (by omega) (by omega)) hs (by omega)
      · obtain ⟨m, rfl⟩ : ∃ m, n' = m + 1 := ⟨n' - 1, by omega⟩
        exact steady_braced hedges ((ih m room).1 (by omega) (by omega)) (by omega) (by omega)

end Statements

/-! ## Every rule -/

/-- How many tokens a rule reads at least: what may be empty reads none, and a `return` without a
    value reads its keyword if it stands at one. -/
def Rule.least {α : Type} (s : State) : Rule α → Nat
  | .skipNewlines | .skipSeparators | .statements _ => 0
  | .returned => min 1 s.rest.length
  | _ => 1

namespace Rule

/-- **Every rule is booked** if its bounds are those for the tokens left, whatever its edges. -/
theorem booked (hedges : edges.Fits tokens) (r : Rule β) (hs : Regular tokens s)
    (hn : bound s.rest ≤ n) (hn' : bound s.rest ≤ n') :
    Booked s (Kept tokens (r.least s) s) (r.within edges n s) (r.parser n' s) := by
  have hroom := Nat.lt_succ_self s.rest.length
  unfold bound at hn hn'
  obtain ⟨hexpr, hlevel, hunary⟩ := steady_expressions hedges n n' (s.rest.length + 1)
  obtain ⟨hstmt, -, hblock⟩ := steady_statement hedges n n' (s.rest.length + 1)
  have hexpr := hexpr (by omega) (by omega)
  have hblock := hblock (by omega) (by omega)
  -- what is read after a first token
  have hinner := hexpr.mono (Nat.le_succ s.rest.length)
  cases r with
  | skipNewlines => exact steady_skipNewlines s hs hroom
  | skipSeparators => exact steady_skipSeparators s hs hroom
  | expect x expected => exact steady_expect x expected s hs hroom
  | identifier expected => exact steady_identifier expected s hs hroom
  | expression => exact hexpr s hs hroom
  | assignment =>
    exact steady_assignment (hlevel .or (by omega) (by omega)) hinner s hs hroom
  | level prec => exact hlevel prec (by omega) (by omega) s hs hroom
  | unary => exact hunary (by omega) (by omega) s hs hroom
  | calls =>
    exact steady_calls (steady_primary hedges hinner) hinner (by omega) (by omega) s hs hroom
  | primary => exact steady_primary hedges hinner s hs hroom
  | arguments =>
    exact steady_parenList (fun _ => hexpr) (by omega) (by omega) s hs hroom
  | parameters => exact steady_parenList steady_parameter (by omega) (by omega) s hs hroom
  | statements inBlock =>
    exact steady_statements (hstmt hn hn') inBlock (by omega) (by omega) s hs hroom
  | statement => exact hstmt hn hn' s hs hroom
  | ifStatement =>
    obtain ⟨m, rfl⟩ : ∃ m, n = m + 1 := ⟨n - 1, by omega⟩
    obtain ⟨m', rfl⟩ : ∃ m, n' = m + 1 := ⟨n' - 1, by omega⟩
    have hexpr := (steady_expressions hedges m m' (s.rest.length + 1)).1 (by omega) (by omega)
    obtain ⟨-, hif, hblock⟩ := steady_statement hedges m m' (s.rest.length + 1)
    exact booked_ifStatement hedges hexpr (hif (by omega) (by omega))
      (hblock (by omega) (by omega)) hs (by omega)
  | block => exact hblock s hs hroom
  | declaration => exact steady_declaration hexpr s hs hroom
  | definition => exact steady_definition hblock (by omega) (by omega) s hs hroom
  | whileLoop => exact steady_whileLoop hexpr hblock s hs hroom
  | returned => exact booked_returned hexpr hs hroom
  | printed => exact steady_printed hexpr (by omega) (by omega) s hs hroom

end Rule

/-- **The counters of the parser.**  Let a rule start anywhere in a token list, with whatever
    counters, as long as the nesting is within its limit.  What is done where its bound is reached,
    where a level is left that was not entered, and where an index goes past the list, is never
    done.  If it ends well, the counters are what they were and it has read what it reads at least;
    if it fails, the counter of nesting is not below what it was, and not above the limit. -/
theorem bookkeeping (hedges : edges.Fits tokens) (r : Rule β)
    (hplace : s.rest = tokens.drop s.position) (hlimit : s.depth ≤ maxNesting)
    (hn : bound s.rest ≤ n) (hn' : bound s.rest ≤ n') :
    r.within .usual n' = r.parser n' ∧
    r.within edges n s = r.parser n' s ∧
    (∀ x s', r.parser n' s = .ok x s' →
      s'.depth = s.depth ∧ s'.functions = s.functions ∧ s'.loops = s.loops ∧
      s'.rest = tokens.drop s'.position ∧ s.position + r.least s ≤ s'.position) ∧
    (∀ e s', r.parser n' s = .error e s' → s.depth ≤ s'.depth ∧ s'.depth ≤ maxNesting) := by
  obtain ⟨hsame, hends⟩ := r.booked hedges ⟨hlimit, hplace⟩ hn hn'
  rw [hsame] at hends
  refine ⟨r.within_usual n', hsame, fun x s' hrun => ?_, fun e s' hrun => ?_⟩
  · rw [hrun] at hends
    exact ⟨hends.depth, hends.functions, hends.loops, hends.after.rest, hends.far⟩
  · rw [hrun] at hends
    exact ⟨hends.depth, hends.limit⟩

/-- Edges that would be seen: an error of its own, a state thrown over, a token not in the list. -/
def Edges.rough (tokens : List Token) : Edges where
  stop := throw ⟨.duplicateParameter "", .first⟩
  leave s := if s.depth = 0 then ⟨[], 0, .first, maxNesting + 1, 0, 0⟩ else s.leave
  token s := tokens[s.position]?.getD ⟨.eof, "past the end", .first⟩

/-- **The rough edges fit**: the counter of nesting is positive where a level is left, and no index
    is past the list. -/
theorem Edges.rough_fits (tokens : List Token) : (rough tokens).Fits tokens where
  leave s h := if_neg (Nat.ne_of_gt h)
  token s h _ := by
    show tokens[s.position]?.getD _ = _
    rw [List.getElem?_eq_getElem h, Option.getD_some]

/-- The expression `-x`, in the last two levels of nesting that there are. -/
theorem bookkeeping_minus :
    let tokens : List Token := [⟨.symbol .minus, "-", ⟨1, 1⟩⟩, ⟨.identifier, "x", ⟨1, 2⟩⟩]
    let s : State := ⟨tokens, 0, .first, 98, 1, 2⟩
    ∃ x s', Rule.expression.parser 48 s = .ok x s' ∧
      Rule.expression.within (.rough tokens) 48 s = .ok x s' ∧
      s'.depth = 98 ∧ s'.functions = 1 ∧ s'.loops = 2 ∧ 1 ≤ s'.position := by
  intro tokens s
  obtain ⟨-, hsame, hok, -⟩ := bookkeeping (Edges.rough_fits tokens) .expression
    (show s.rest = tokens.drop s.position from rfl) (by decide)
    (show bound s.rest ≤ 48 by decide) (show bound s.rest ≤ 48 by decide)
  have hrun : Rule.expression.parser 48 s =
      .ok (.unary ⟨⟨1, 1⟩, 0, 2⟩ .negate (.name ⟨⟨1, 2⟩, 1, 2⟩ "x"))
        ⟨[], 2, ⟨1, 2⟩, 98, 1, 2⟩ := rfl
  obtain ⟨hdepth, hfunctions, hloops, -, hfar⟩ := hok _ _ hrun
  exact ⟨_, _, hrun, hsame.trans hrun, hdepth, hfunctions, hloops, hfar⟩

end Scriptlet.Parse
