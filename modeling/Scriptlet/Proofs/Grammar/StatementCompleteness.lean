/-
  Completeness of statements: whatever statement, block or program the grammar derives, with the
  context conditions, the parser accepts, up to the nesting limit.

  1. **What may follow** — after a statement comes a separator, a closing brace or the end, and no
     `else` after newlines: an `else` would be taken by a conditional that has none of its own.
  2. **One lemma per rule**, as for expressions.  The context conditions of a tree are those that
     the counters of the state ask for.
-/
import Scriptlet.Proofs.Grammar.Completeness
import Scriptlet.Proofs.Grammar.StatementSoundness

namespace Scriptlet

/-! ## What may follow -/

namespace Grammar

variable {k : Nat} {w : Word} {ws rest : List Word} {body : List (Stmt Unit)}

/-- No `else` comes next, not even after newlines. -/
def NoElse (rest : List Word) : Prop :=
  ∀ gap tail, rest = gap ++ tail → Newlines gap → ∀ w ∈ tail.head?, w.kind ≠ .keyword .elseKw

/-- A statement may end before these words. -/
structure EndsStatement (rest : List Word) : Prop where
  head : ∀ w ∈ rest.head?, IsSeparator w ∨ w.kind = .symbol .rightBrace
  noElse : NoElse rest

/-- A list of statements ends before these words. -/
def EndsStatements : Bool → List Word → Prop
  | true, rest => ∃ w tail, rest = w :: tail ∧ w.kind = .symbol .rightBrace
  | false, rest => rest = []

theorem EndsStatement.closes (h : EndsStatement rest) : Closes rest := by
  intro w hw
  rcases h.head w hw with (hk | hk) | hk <;> rw [hk] <;> rfl

/-- A list of words that starts with no newline and no `else`. -/
theorem noElse_of_head (h : ∀ w ∈ rest.head?, w.kind ≠ .newline ∧ w.kind ≠ .keyword .elseKw) :
    NoElse rest := by
  intro gap tail heq hgap w hw
  cases gap with
  | nil =>
    rw [List.nil_append] at heq
    rw [← heq] at hw
    exact (h w hw).2
  | cons v gap =>
    rw [heq] at h
    exact absurd (hgap v (List.mem_cons_self ..)) (h v rfl).1

theorem NoElse.cons (hw : w.kind ≠ .keyword .elseKw) (h : NoElse rest) : NoElse (w :: rest) := by
  intro gap tail heq hgap v hv
  cases gap with
  | nil =>
    rw [List.nil_append] at heq
    rw [← heq, List.head?_cons, Option.mem_some_iff] at hv
    rw [← hv]
    exact hw
  | cons u gap =>
    refine h gap tail (List.cons.inj heq).2 (fun x hx => hgap x (List.mem_cons_of_mem u hx)) v hv

theorem IsSeparator.ne_else (h : IsSeparator w) : w.kind ≠ .keyword .elseKw := by
  rcases h with hk | hk <;> rw [hk] <;> simp

theorem Separators.append {gap gap' : List Word} (h : Separators gap) (h' : Separators gap') :
    Separators (gap ++ gap') := by
  intro w hw
  rcases List.mem_append.mp hw with hw | hw
  · exact h w hw
  · exact h' w hw

theorem noElse_separators {gap : List Word} (hgap : Separators gap) (h : NoElse rest) :
    NoElse (gap ++ rest) := by
  induction gap with
  | nil => exact h
  | cons w gap ih =>
    exact (ih fun v hv => hgap v (List.mem_cons_of_mem w hv)).cons
      (hgap w (List.mem_cons_self ..)).ne_else

theorem noElse_of_startsStatement (h : StartsStatement ws) (rest : List Word) :
    NoElse (ws ++ rest) := by
  obtain ⟨w, tail, rfl, hw⟩ := h
  refine noElse_of_head fun v hv => ?_
  rw [List.cons_append, List.head?_cons, Option.mem_some_iff] at hv
  rw [← hv]
  refine ⟨fun hk => ?_, fun hk => ?_⟩ <;> rw [hk] at hw <;> exact absurd hw (by decide)

theorem EndsStatements.endsStatement {inBlock : Bool} (h : EndsStatements inBlock rest) :
    EndsStatement rest := by
  cases inBlock with
  | true =>
    obtain ⟨w, tail, rfl, hw⟩ := h
    refine ⟨fun v hv => ?_, noElse_of_head fun v hv => ?_⟩
    all_goals
      rw [List.head?_cons, Option.mem_some_iff] at hv
      rw [← hv, hw]
      simp
  | false =>
    have hnil : rest = [] := h
    subst hnil
    exact ⟨fun v hv => absurd hv (by simp), noElse_of_head fun v hv => absurd hv (by simp)⟩

/-- No list of statements starts with an `else`. -/
theorem Statements.noElse (h : Statements k ws body) (hrest : NoElse rest) :
    NoElse (ws ++ rest) := by
  cases h with
  | none gap hgap => exact noElse_separators hgap hrest
  | last gap hgap statement =>
    rw [List.append_assoc]
    exact noElse_separators hgap (noElse_of_startsStatement statement.starts rest)
  | more gap w hgap statement _ _ =>
    rw [List.append_assoc, List.append_assoc]
    exact noElse_separators hgap (noElse_of_startsStatement statement.starts _)

theorem Conditional.starts_if {t : Stmt Unit} (h : Conditional k ws t) :
    ∃ w tail, ws = w :: tail ∧ w.kind = .keyword .ifKw := by
  cases h with
  | plain w hw _ _ => exact ⟨w, _, rfl, hw⟩
  | elseBlock w _ _ hw _ _ _ _ _ => exact ⟨w, _, rfl, hw⟩
  | elseIf w _ _ hw _ _ _ _ _ => exact ⟨w, _, rfl, hw⟩

theorem Block.closes {body : List (Stmt Unit)} (h : Block k ws body) (rest : List Word) :
    Closes (ws ++ rest) := by
  cases h with
  | braces o c ho _ _ => exact closes_cons ho rfl

end Grammar

namespace Parse

open Grammar

/-! ## What is read -/

section Definitions

variable (k : Nat) (ws : List Word)

/-- Words that derive a statement are read as one, where the context conditions hold. -/
def StatementReads (t : Stmt Unit) : Prop :=
  ∀ (n : Nat) (s : State) (rest : List Word), s.words = ws ++ rest → 16 * ws.length + 1 ≤ n →
    EndsStatement rest →
    t.wellPlaced (decide (0 < s.functions)) (decide (0 < s.loops)) = true →
    Reads (statement n) s k ws fun b => b.shape = t

/-- Words that derive a conditional are read as one, where the context conditions hold. -/
def ConditionalReads (t : Stmt Unit) : Prop :=
  ∀ (n : Nat) (s : State) (rest : List Word), s.words = ws ++ rest → 16 * ws.length ≤ n →
    EndsStatement rest →
    t.wellPlaced (decide (0 < s.functions)) (decide (0 < s.loops)) = true →
    Reads (ifStatement n) s k ws fun b => b.shape = t

/-- Words that derive a block are read as one, where the context conditions hold. -/
def BlockReads (body : List (Stmt Unit)) : Prop :=
  ∀ (n : Nat) (s : State) (rest : List Word), s.words = ws ++ rest → 16 * ws.length ≤ n →
    Stmt.allWellPlaced (decide (0 < s.functions)) (decide (0 < s.loops)) body = true →
    Reads (block n) s k ws fun b => Stmt.shapes b = body

/-- Words that derive a list of statements are read as one, also after more separators. -/
def StatementsReads (body : List (Stmt Unit)) : Prop :=
  ∀ (n size : Nat) (inBlock : Bool) (s : State) (gap rest : List Word), Separators gap →
    s.words = gap ++ (ws ++ rest) → 16 * ws.length + 1 ≤ n → ws.length + 2 ≤ size →
    EndsStatements inBlock rest →
    Stmt.allWellPlaced (decide (0 < s.functions)) (decide (0 < s.loops)) body = true →
    Reads (statements (statement n) inBlock size) s k (gap ++ ws) fun b => Stmt.shapes b = body

/-- Words that derive a statement other than a conditional are read as one, whatever its origin. -/
def NodeReads (t : Stmt Unit) : Prop :=
  ∀ (n : Nat) (s : State) (rest : List Word), s.words = ws ++ rest → 16 * ws.length ≤ n →
    EndsStatement rest →
    t.wellPlaced (decide (0 < s.functions)) (decide (0 < s.loops)) = true →
    Reads (simpleStatement n (expression n) (block n)) s k ws fun node => ∀ a, (node a).shape = t

end Definitions

/-! ## Simple statements -/

section Simple

variable {k k' : Nat} {w : Word} {ws ws' rest gap : List Word} {e : Expr Unit}

/-- A statement whose first word is no `if`. -/
theorem statementReads_simple {t : Stmt Unit} (hfirst : StartsStatement ws)
    (hif : ∀ w ∈ ws.head?, w.kind ≠ .keyword .ifKw) (h : NodeReads k ws t) :
    StatementReads k ws t := by
  intro n s rest hs hn hrest hwp
  obtain ⟨w, tail, rfl, -⟩ := hfirst
  obtain ⟨n, rfl⟩ : ∃ n', n = n' + 1 := ⟨n - 1, by omega⟩
  refine Reads.congr (q := simpleStatement n (expression n) (block n) >>= fun node =>
    originFrom s.span s.position >>= fun a => pure (node a)) ?_ ?_
  · show (if s.atKeyword .ifKw then ifStatement n
      else simpleStatement n (expression n) (block n) >>= fun node =>
        originFrom s.span s.position >>= fun a => pure (node a) : Parse (Stmt Origin)) s = _
    rw [State.atKeyword_of_words hs, if_neg (by simpa using hif w rfl)]
  · have hread := h n s rest hs (by omega) hrest hwp
    exact (hread.bind 0 [] fun node _ _ hnode => reads_node _ _ hnode).of_eq (by omega)
      (List.append_nil _)

/-- An expression. -/
theorem nodeReads_expr (value : Expression k ws e) : NodeReads k ws (.expr () e) := by
  intro n s rest hs hn hrest _
  have hread := expression_complete value n s rest hs hn hrest.closes
  obtain ⟨w, tail, rfl, hw⟩ := value.starts
  refine Reads.congr (q := expression n >>= fun e => pure fun a => .expr a e) ?_ ?_
  · rw [simpleStatement_eq, State.kind?_of_words hs]
    generalize w.kind = kind at hw
    match kind with
    | .integer _ | .float _ | .str _ | .identifier => rfl
    | .keyword x => cases x <;> first | rfl | exact absurd hw (by decide)
    | .symbol x => cases x <;> first | rfl | exact absurd hw (by decide)
    | .newline | .eof => exact absurd hw (by decide)
  · refine (hread.bind 0 [] fun b _ _ hb => Reads.pure fun a => ?_).of_eq (by omega)
      (List.append_nil _)
    show Stmt.expr () b.shape = _
    rw [hb]

/-- A declaration without a value. -/
theorem nodeReads_declare {x : Word} (hw : w.kind = .keyword .letKw)
    (hx : x.kind = .identifier) : NodeReads 0 [w, x] (.declare () x.text none) := by
  intro n s rest hs hn hrest _
  have hs₁ : s.next.words = x :: rest := State.words_next hs
  refine Reads.after (q := identifier .variableName >>= fun x => get >>= fun s =>
    if s.atSymbol .assign then
      advance >>= fun _ => skipNewlines >>= fun _ => expression n >>= fun e =>
        pure fun a => .declare a x (some e)
    else pure fun a => .declare a x none) (State.passed_next hs) ?_ ?_
  · -- the keyword has chosen this rule
    rw [simpleStatement_eq, State.kind?_of_words hs, hw]
    rfl
  · -- the statement ends behind the name, so no `=` follows
    refine (reads_identifier hs₁ hx).bind 0 [] fun y s₂ hp₂ hy => ?_
    subst hy
    have hassign : s₂.atSymbol .assign = false := by
      have hs₂ := hp₂.words_right hs₁
      cases rest with
      | nil => exact State.atSymbol_of_words_nil hs₂
      | cons v rest =>
        rw [State.atSymbol_of_words hs₂]
        refine beq_false_of_ne fun hk => ?_
        have := hrest.closes v rfl
        rw [hk] at this
        exact absurd this (by decide)
    refine Reads.congr (q := pure fun a => .declare a x.text none) ?_ (Reads.pure fun a => rfl)
    show (if s₂.atSymbol .assign then
        advance >>= fun _ => skipNewlines >>= fun _ => expression n >>= fun e =>
          pure fun a => .declare a x.text (some e)
      else pure fun a => .declare a x.text none : Parse (Origin → Stmt Origin)) s₂ = _
    rw [hassign]
    rfl

/-- A declaration with a value. -/
theorem nodeReads_declareAs {x eq : Word} (hw : w.kind = .keyword .letKw)
    (hx : x.kind = .identifier) (heq : eq.kind = .symbol .assign) (hgap : Newlines gap)
    (value : Expression k ws e) :
    NodeReads k (w :: x :: eq :: gap ++ ws) (.declare () x.text (some e)) := by
  intro n s rest hs hn hrest _
  simp only [List.length_append, List.length_cons] at hn
  have hs : s.words = w :: x :: eq :: (gap ++ (ws ++ rest)) := by
    rw [hs]; simp only [List.append_assoc, List.cons_append]
  have hs₁ := State.words_next hs
  show Reads _ s k ([w] ++ (x :: eq :: gap ++ ws)) _
  refine Reads.after (q := identifier .variableName >>= fun x => get >>= fun s =>
    if s.atSymbol .assign then
      advance >>= fun _ => skipNewlines >>= fun _ => expression n >>= fun e =>
        pure fun a => .declare a x (some e)
    else pure fun a => .declare a x none) (State.passed_next hs) ?_ ?_
  · rw [simpleStatement_eq, State.kind?_of_words hs, hw]
    rfl
  · -- the name, the symbol, newlines, and the value behind them
    refine ((reads_identifier hs₁ hx).bind k (eq :: gap ++ ws) fun y s₂ hp₂ hy => ?_).of_eq
      (by omega) rfl
    subst hy
    have hs₂ := hp₂.words_right hs₁
    have hp₃ := State.passed_next hs₂
    have hs₃ := State.words_next hs₂
    have hp₄ := State.passed_skipNewlines_of_words hs₃ hgap (value.starts.head_ne_newline rest)
    have hread := expression_complete value n s₂.next.skipNewlines rest (hp₄.words_right hs₃)
      (by omega) hrest.closes
    refine Reads.after (q := expression n >>= fun e => pure fun a => .declare a x.text (some e))
      (hp₃.trans hp₄) ?_ ?_
    · show (if s₂.atSymbol .assign then
          advance >>= fun _ => skipNewlines >>= fun _ => expression n >>= fun e =>
            pure fun a => .declare a x.text (some e)
        else pure fun a => .declare a x.text none : Parse (Origin → Stmt Origin)) s₂ = _
      rw [State.atSymbol_of_words hs₂, heq]
      rfl
    · refine (hread.bind 0 [] fun b _ _ hb => Reads.pure fun a => ?_).of_eq (by omega)
        (List.append_nil ws)
      show Stmt.declare () x.text (some b.shape) = _
      rw [hb]

/-- A statement `print`. -/
theorem nodeReads_print {o : Word} {args : List (Expr Unit)} (hw : w.kind = .keyword .printKw)
    (ho : o.kind = .symbol .leftParen) (arguments : Enclosed Expression k ws args) :
    NodeReads k (w :: o :: ws) (.print () args) := by
  intro n s rest hs hn hrest _
  simp only [List.length_cons] at hn
  have hs₁ := State.words_next hs
  refine Reads.after (q := expect .leftParen .parenAfterPrint >>= fun _ =>
    parenList n (fun _ => expression n) >>= fun arguments => pure fun a => .print a arguments)
    (State.passed_next hs) ?_ ?_
  · rw [simpleStatement_eq, State.kind?_of_words hs, hw]
    rfl
  · -- the arguments are a list in parentheses
    refine ((reads_expect hs₁ ho).bind k ws fun _ s₂ hp₂ _ => ?_).of_eq (by omega) rfl
    have hread := arguments_reads (enclosed_complete arguments) (hp₂.words_right hs₁) (n := n)
      (by omega)
    refine (hread.bind 0 [] fun bs _ _ hbs => Reads.pure fun a => ?_).of_eq (by omega)
      (List.append_nil ws)
    show Stmt.print () (Expr.shapes bs) = _
    rw [hbs]

/-- A block. -/
theorem nodeReads_block {body : List (Stmt Unit)} (block : Block k ws body)
    (h : BlockReads k ws body) : NodeReads k ws (.block () body) := by
  intro n s rest hs hn hrest hwp
  have hread := h n s rest hs hn hwp
  obtain ⟨w, tail, rfl, hw⟩ : ∃ w tail, ws = w :: tail ∧ w.kind = .symbol .leftBrace := by
    cases block with
    | braces o c ho _ _ => exact ⟨o, _, rfl, ho⟩
  refine Reads.congr (q := Parse.block n >>= fun body => pure fun a => .block a body) ?_ ?_
  · rw [simpleStatement_eq, State.kind?_of_words hs, hw]
  · refine (hread.bind 0 [] fun b _ _ hb => Reads.pure fun a => ?_).of_eq (by omega)
      (List.append_nil _)
    show Stmt.block () (Stmt.shapes b) = _
    rw [hb]

/-- A block inside one more loop. -/
theorem reads_inLoop {n : Nat} {s : State} {body : List (Stmt Unit)} (h : BlockReads k ws body)
    (hs : s.words = ws ++ rest) (hn : 16 * ws.length ≤ n)
    (hwp : Stmt.allWellPlaced (decide (0 < s.functions)) true body = true) :
    Reads (inLoop (Parse.block n)) s k ws fun b => Stmt.shapes b = body := by
  have hl : decide (0 < s.loops + 1) = true := decide_eq_true (Nat.succ_pos _)
  refine Reads.within { s with loops := s.loops + 1 }
    (fun s => { s with loops := s.loops - 1 }) rfl rfl ?_
    (h n { s with loops := s.loops + 1 } rest hs hn (by rw [hl]; exact hwp))
  intro s' hp
  refine ⟨hp.words, hp.position, hp.depth, hp.functions, ?_⟩
  show s'.loops - 1 = s.loops
  rw [hp.loops]
  exact Nat.add_sub_cancel ..

/-- A block inside one more function. -/
theorem reads_inFunction {n : Nat} {s : State} {body : List (Stmt Unit)}
    (h : BlockReads k ws body) (hs : s.words = ws ++ rest) (hn : 16 * ws.length ≤ n)
    (hwp : Stmt.allWellPlaced true false body = true) :
    Reads (inFunction (Parse.block n)) s k ws fun b => Stmt.shapes b = body := by
  have hf : decide (0 < s.functions + 1) = true := decide_eq_true (Nat.succ_pos _)
  refine Reads.within { s with functions := s.functions + 1, loops := 0 }
    (fun s' => { s' with functions := s'.functions - 1, loops := s.loops }) rfl rfl ?_
    (h n { s with functions := s.functions + 1, loops := 0 } rest hs hn (by rw [hf]; exact hwp))
  intro s' hp
  refine ⟨hp.words, hp.position, hp.depth, ?_, rfl⟩
  show s'.functions - 1 = s.functions
  rw [hp.functions]
  exact Nat.add_sub_cancel ..

/-- A loop. -/
theorem nodeReads_loop {c : Expr Unit} {body : List (Stmt Unit)} (hw : w.kind = .keyword .whileKw)
    (condition : Expression k ws c) (block : Block k' ws' body) (h : BlockReads k' ws' body) :
    NodeReads (max k k') (w :: ws ++ ws') (.loop () c body) := by
  intro n s rest hs hn hrest hwp
  simp only [List.length_append, List.length_cons] at hn
  have hs : s.words = w :: (ws ++ (ws' ++ rest)) := by
    rw [hs]; simp only [List.append_assoc, List.cons_append]
  have hs₁ := State.words_next hs
  have hp₁ := State.passed_next hs
  show Reads _ s (max k k') ([w] ++ (ws ++ ws')) _
  refine Reads.after (q := expression n >>= fun c => inLoop (Parse.block n) >>= fun body =>
    pure fun a => .loop a c body) hp₁ ?_ ?_
  · rw [simpleStatement_eq, State.kind?_of_words hs, hw]
    rfl
  · -- the condition ends where the block begins
    have hread := expression_complete condition n s.next _ hs₁ (by omega) (block.closes rest)
    refine hread.bind k' ws' fun b s₂ hp₂ hb => ?_
    have hp := hp₁.trans hp₂
    -- inside the body a jump may leave this loop
    have hbody := reads_inLoop h (hp₂.words_right hs₁) (n := n) (by omega)
      (by rw [hp.functions]; exact hwp)
    refine (hbody.bind 0 [] fun bs _ _ hbs => Reads.pure fun a => ?_).of_eq (by omega)
      (List.append_nil ws')
    show Stmt.loop () b.shape (Stmt.shapes bs) = _
    rw [hb, hbs]

/-- Parameters in parentheses. -/
theorem parameters_reads {n : Nat} {s : State} {params : List String}
    (h : Enclosed Parameter k ws params) (hs : s.words = ws ++ rest) (hn : ws.length ≤ n)
    (hnodup : params.Nodup) :
    Reads (parenList n parameter) s k ws fun xs => xs = params := by
  -- a parameter is a name that was not there before
  have hitem : ItemReads Parameter id List.Nodup ws.length parameter := by
    rintro before k ws' x s rest ⟨rfl, w, rfl, hk, rfl⟩ _ hs _ hnodup
    rw [List.map_id] at hnodup
    have hnot : w.text ∉ before := by
      intro hmem
      exact (List.nodup_append.mp hnodup).2.2 _ hmem _ (List.mem_singleton.mpr rfl) rfl
    refine Reads.congr (q := identifier .parameterName >>= fun x =>
      if x ∈ before then throw ⟨.duplicateParameter x, s.span⟩ else pure x) rfl ?_
    refine (reads_identifier hs hk).bind 0 [] fun x _ _ hx => ?_
    subst hx
    rw [if_neg hnot]
    exact Reads.pure rfl
  -- a list of parameters starts with a name, not with a newline or a parenthesis
  have hstart : ItemStarts Parameter := by
    rintro k ws x ⟨-, w, rfl, hk, -⟩
    exact ⟨w, [], rfl, by rw [hk]; simp, by rw [hk]; simp⟩
  have hread := parenList_reads hitem hstart
    (fun xs ys hxs => (List.nodup_append.mp hxs).1) h (Nat.le_refl _) hn hs hnodup
  exact hread.mono fun xs hxs => by rw [← hxs, List.map_id]

/-- A function definition. -/
theorem nodeReads_function {f o : Word} {params : List String} {body : List (Stmt Unit)}
    (hw : w.kind = .keyword .fnKw) (hf : f.kind = .identifier) (ho : o.kind = .symbol .leftParen)
    (parameters : Enclosed Parameter k ws params) (h : BlockReads k' ws' body) :
    NodeReads (max k k') (w :: f :: o :: ws ++ ws') (.function () f.text params body) := by
  intro n s rest hs hn hrest hwp
  simp only [List.length_append, List.length_cons] at hn
  -- the context conditions of a function: distinct parameters, and a body that may return
  obtain ⟨hnodup, hbody⟩ := (Bool.and_eq_true _ _).mp
    (show (decide params.Nodup && Stmt.allWellPlaced true false body) = true from hwp)
  have hs : s.words = w :: f :: o :: (ws ++ (ws' ++ rest)) := by
    rw [hs]; simp only [List.append_assoc, List.cons_append]
  have hs₁ := State.words_next hs
  show Reads _ s (max k k') ([w] ++ ([f] ++ ([o] ++ (ws ++ ws')))) _
  refine Reads.after (q := identifier .functionName >>= fun f =>
    expect .leftParen .leftParen >>= fun _ => parenList n parameter >>= fun params =>
      inFunction (Parse.block n) >>= fun body => pure fun a => .function a f params body)
    (State.passed_next hs) ?_ ?_
  · -- the keyword has chosen this rule
    rw [simpleStatement_eq, State.kind?_of_words hs, hw]
    rfl
  · refine ((reads_identifier hs₁ hf).bind (max k k') _ fun x s₂ hp₂ hx => ?_).of_eq (by omega) rfl
    subst hx
    have hs₂ := hp₂.words_right hs₁
    -- name, parenthesis, parameters and body are read in turn
    refine ((reads_expect hs₂ ho).bind (max k k') _ fun _ s₃ hp₃ _ => ?_).of_eq (by omega) rfl
    have hs₃ := hp₃.words_right hs₂
    refine (parameters_reads parameters hs₃ (n := n) (by omega)
      (of_decide_eq_true hnodup)).bind k' ws' fun xs s₄ hp₄ hxs => ?_
    have hread := reads_inFunction h (hp₄.words_right hs₃) (n := n) (by omega) hbody
    refine (hread.bind 0 [] fun bs _ _ hbs => Reads.pure fun a => ?_).of_eq (by omega)
      (List.append_nil ws')
    show Stmt.function () f.text xs (Stmt.shapes bs) = _
    rw [hxs, hbs]

/-- Whether a statement may end here, by the words that are left. -/
theorem State.atSeparator_of_words {s : State} (h : ∀ w ∈ s.words.head?,
    IsSeparator w ∨ w.kind = .symbol .rightBrace) : s.atSeparator true = true := by
  cases hs : s.words with
  | nil => rcases State.kind?_of_words_nil hs with hk | hk <;> rw [State.atSeparator, hk]
  | cons w rest =>
    rw [hs] at h
    rw [State.atSeparator, State.kind?_of_words hs]
    rcases h w rfl with (hk | hk) | hk <;> rw [hk]

theorem State.not_atSeparator_of_startsExpression {s : State} {inBlock : Bool}
    (h : StartsExpression s.words) : s.atSeparator inBlock = false := by
  obtain ⟨w, rest, hs, hw⟩ := h
  rw [State.atSeparator, State.kind?_of_words hs]
  generalize w.kind = kind at hw
  cases kind with
  | symbol x => cases x <;> first | rfl | exact absurd hw (by decide)
  | newline => exact absurd hw (by decide)
  | eof => exact absurd hw (by decide)
  | _ => rfl

/-- A `return` goes on after its keyword inside a function. -/
theorem returned_eq {n : Nat} {s : State} (hs : s.words = w :: rest)
    (hw : w.kind = .keyword .returnKw) (hf : decide (0 < s.functions) = true) :
    simpleStatement n (expression n) (Parse.block n) s =
      (if s.next.atSeparator true then pure fun a => .ret a none
        else expression n >>= fun e => pure fun a => .ret a (some e)
        : Parse (Origin → Stmt Origin)) s.next := by
  rw [simpleStatement_eq, State.kind?_of_words hs, hw]
  show (if s.functions = 0 then throw ⟨.returnOutsideFunction, s.span⟩
    else advance >>= fun _ => get >>= fun s => if s.atSeparator true then
        pure fun a => .ret a none
      else expression n >>= fun e => pure fun a => .ret a (some e)
    : Parse (Origin → Stmt Origin)) s = _
  have hne : ¬ s.functions = 0 := by
    have := of_decide_eq_true hf
    omega
  rw [if_neg hne]
  rfl

/-- A `return` without a value. -/
theorem nodeReads_ret (hw : w.kind = .keyword .returnKw) : NodeReads 0 [w] (.ret () none) := by
  intro n s rest hs hn hrest hwp
  have hsep : s.next.atSeparator true = true := State.atSeparator_of_words (by
    rw [State.words_next hs]
    exact hrest.head)
  refine Reads.after (q := pure fun a => .ret a none) (State.passed_next hs) ?_
    (Reads.pure fun a => rfl)
  rw [returned_eq hs hw hwp, hsep]
  rfl

/-- A `return` with a value. -/
theorem nodeReads_retValue (hw : w.kind = .keyword .returnKw) (value : Expression k ws e) :
    NodeReads k (w :: ws) (.ret () (some e)) := by
  intro n s rest hs hn hrest hwp
  rw [List.length_cons] at hn
  have hs₁ := State.words_next hs
  have hsep : s.next.atSeparator true = false :=
    State.not_atSeparator_of_startsExpression (by rw [hs₁]; exact value.starts.append rest)
  have hread := expression_complete value n s.next rest hs₁ (by omega) hrest.closes
  refine Reads.after (q := expression n >>= fun e => pure fun a => .ret a (some e))
    (State.passed_next hs) ?_ ?_
  · rw [returned_eq hs hw hwp, hsep]
    rfl
  · refine (hread.bind 0 [] fun b _ _ hb => Reads.pure fun a => ?_).of_eq (by omega)
      (List.append_nil ws)
    show Stmt.ret () (some b.shape) = _
    rw [hb]

/-- A `break` or `continue` inside a loop. -/
theorem reads_loopControl {keyword : Keyword} {node : Origin → Stmt Origin} {t : Stmt Unit}
    {s : State} (hs : s.words = w :: rest) (hl : decide (0 < s.loops) = true)
    (ht : ∀ a, (node a).shape = t) :
    Reads (loopControl keyword node) s 0 [w] fun node => ∀ a, (node a).shape = t := by
  refine Reads.after (q := pure node) (State.passed_next hs) ?_ (Reads.pure ht)
  show (if s.loops = 0 then throw ⟨.loopControlOutsideLoop keyword, s.span⟩
    else advance >>= fun _ => pure node : Parse (Origin → Stmt Origin)) s = _
  have hne : ¬ s.loops = 0 := by
    have := of_decide_eq_true hl
    omega
  rw [if_neg hne]
  rfl

theorem nodeReads_breakLoop (hw : w.kind = .keyword .breakKw) :
    NodeReads 0 [w] (.breakLoop ()) := by
  intro n s rest hs hn hrest hwp
  refine Reads.congr (q := loopControl .breakKw .breakLoop) ?_
    (reads_loopControl hs hwp fun _ => rfl)
  rw [simpleStatement_eq, State.kind?_of_words hs, hw]

theorem nodeReads_continueLoop (hw : w.kind = .keyword .continueKw) :
    NodeReads 0 [w] (.continueLoop ()) := by
  intro n s rest hs hn hrest hwp
  refine Reads.congr (q := loopControl .continueKw .continueLoop) ?_
    (reads_loopControl hs hwp fun _ => rfl)
  rw [simpleStatement_eq, State.kind?_of_words hs, hw]

end Simple

/-! ## Conditionals -/

section Conditionals

variable {k k' k'' : Nat} {w o : Word} {ws ws' ws'' gap rest : List Word} {c : Expr Unit}
variable {t : List (Stmt Unit)}

/-- The way on after the first block of a conditional. -/
def conditionalTail (s : State) (c : Expr Origin) (t : List (Stmt Origin))
    (branch : Parse (Stmt Origin)) : Parse (Stmt Origin) :=
  get >>= fun s₂ => if s₂.skipNewlines.atKeyword .elseKw then
      set s₂.skipNewlines >>= fun _ => advance >>= fun _ => (some <$> branch) >>= fun alt =>
        originFrom s.span s.position >>= fun a => pure (.cond a c t alt)
    else pure none >>= fun alt => originFrom s.span s.position >>= fun a =>
        pure (.cond a c t alt)

/-- The condition and the first block of a conditional; what follows is up to `htail`. -/
theorem conditionalReads_of_tail (k'' : Nat) (tail : List Word) (alt : Option (Stmt Unit))
    (condition : Expression k ws c) (consequent : Block k' ws' t) (h : BlockReads k' ws' t)
    (hplaced : ∀ f l, (Stmt.cond () c t alt).wellPlaced f l = true →
      Stmt.allWellPlaced f l t = true)
    (htail : ∀ (n : Nat) (s s₂ : State) (c' : Expr Origin) (t' : List (Stmt Origin))
      (rest : List Word), s₂.words = tail ++ rest → 16 * tail.length ≤ n → EndsStatement rest →
      (Stmt.cond () c t alt).wellPlaced (decide (0 < s₂.functions)) (decide (0 < s₂.loops)) = true →
      c'.shape = c → Stmt.shapes t' = t →
      Reads (conditionalTail s c' t' (elseBranch (ifStatement n) (Parse.block n))) s₂ k'' tail
        fun b => b.shape = .cond () c t alt) :
    ConditionalReads (max (max k k') k'') (w :: ws ++ ws' ++ tail) (.cond () c t alt) := by
  intro n s rest hs hn hrest hwp
  simp only [List.length_append, List.length_cons] at hn
  -- the bound allows for the `if` itself
  obtain ⟨n, rfl⟩ : ∃ n', n = n' + 1 := ⟨n - 1, by omega⟩
  have hs : s.words = w :: (ws ++ (ws' ++ (tail ++ rest))) := by
    rw [hs]; simp only [List.append_assoc, List.cons_append]
  have hs₁ := State.words_next hs
  have hp₁ := State.passed_next hs
  refine (Reads.after (q := expression n >>= fun c => Parse.block n >>= fun t =>
    conditionalTail s c t (elseBranch (ifStatement n) (Parse.block n))) hp₁ rfl ?_).of_eq rfl
    (show [w] ++ (ws ++ (ws' ++ tail)) = w :: ws ++ ws' ++ tail by
      simp only [List.append_assoc, List.cons_append, List.nil_append])
  -- the condition ends where the block begins
  have hcond := expression_complete condition n s.next _ hs₁ (by omega) (consequent.closes _)
  refine (hcond.bind (max k' k'') (ws' ++ tail) fun c' s₂ hp₂ hc' => ?_).of_eq (by omega) rfl
  have hs₂ := hp₂.words_right hs₁
  have hp₁₂ := hp₁.trans hp₂
  -- reading the condition left the counters as they were, so the block may hold the same jumps
  have hblock := h n s₂ _ hs₂ (by omega)
    (hplaced _ _ (by rw [hp₁₂.functions, hp₁₂.loops]; exact hwp))
  refine hblock.bind k'' tail fun t' s₃ hp₃ ht' => ?_
  have hp := hp₁₂.trans hp₃
  exact htail n s s₃ c' t' rest (hp₃.words_right hs₂) (by omega) hrest
    (by rw [hp.functions, hp.loops]; exact hwp) hc' ht'

/-- A conditional without `else`. -/
theorem conditionalReads_plain (condition : Expression k ws c)
    (consequent : Block k' ws' t) (h : BlockReads k' ws' t) :
    ConditionalReads (max k k') (w :: ws ++ ws') (.cond () c t none) := by
  have hread := conditionalReads_of_tail 0 [] none (w := w) condition consequent h
    (fun _ _ hwp => hwp) ?_
  · rwa [List.append_nil, Nat.max_eq_left (Nat.zero_le _)] at hread
  · intro n s s₂ c' t' rest hs₂ _ hrest _ hc' ht'
    -- looking ahead over newlines finds no `else` that belongs to this conditional
    have helse : s₂.skipNewlines.atKeyword .elseKw = false := by
      obtain ⟨gap, hgap, hp, -⟩ := State.passed_skipNewlines s₂
      cases hs₃ : s₂.skipNewlines.words with
      | nil => exact State.atKeyword_of_words_nil hs₃
      | cons v tail =>
        rw [State.atKeyword_of_words hs₃]
        have heq : rest = gap ++ (v :: tail) := by
          rw [← hs₃, ← hp.words, hs₂]
          rfl
        exact beq_false_of_ne (hrest.noElse gap _ heq hgap v rfl)
    refine Reads.congr (q := originFrom s.span s.position >>= fun a =>
      pure (Stmt.cond a c' t' none)) ?_ (reads_node _ _ fun a => ?_)
    · show (if s₂.skipNewlines.atKeyword .elseKw then
          set s₂.skipNewlines >>= fun _ => advance >>= fun _ =>
            (some <$> elseBranch (ifStatement n) (Parse.block n)) >>= fun alt =>
              originFrom s.span s.position >>= fun a => pure (.cond a c' t' alt)
        else pure none >>= fun alt => originFrom s.span s.position >>= fun a =>
            pure (.cond a c' t' alt) : Parse (Stmt Origin)) s₂ = _
      rw [helse]
      rfl
    · show Stmt.cond () c'.shape (Stmt.shapes t') none = _
      rw [hc', ht']

/-- What follows the first block when there is an `else`. -/
theorem conditionalTail_reads {n : Nat} {s s₂ : State} {c' : Expr Origin}
    {t' : List (Stmt Origin)} {b : Stmt Unit} (hs₂ : s₂.words = gap ++ o :: (ws'' ++ rest))
    (hgap : Newlines gap) (ho : o.kind = .keyword .elseKw) (hc' : c'.shape = c)
    (ht' : Stmt.shapes t' = t)
    (h : ∀ s₃, Passed s₂ s₃ (gap ++ [o]) → s₃.words = ws'' ++ rest →
      Reads (elseBranch (ifStatement n) (Parse.block n)) s₃ k'' ws'' fun b' => b'.shape = b) :
    Reads (conditionalTail s c' t' (elseBranch (ifStatement n) (Parse.block n))) s₂ k''
      (gap ++ o :: ws'') fun b' => b'.shape = .cond () c t (some b) := by
  -- the newlines in front of `else` are read with it
  have hp₂ := State.passed_skipNewlines_of_words hs₂ hgap (by simp [ho])
  have hs₃ := hp₂.words_right hs₂
  have hp₃ := State.passed_next hs₃
  -- the look-ahead finds `else`
  refine (Reads.after (q := (some <$> elseBranch (ifStatement n) (Parse.block n)) >>= fun alt =>
    originFrom s.span s.position >>= fun a => pure (.cond a c' t' alt)) (hp₂.trans hp₃) ?_
    ?_).of_eq rfl (show (gap ++ [o]) ++ ws'' = gap ++ o :: ws'' by
      simp only [List.append_assoc, List.cons_append, List.nil_append])
  · show (if s₂.skipNewlines.atKeyword .elseKw then
        set s₂.skipNewlines >>= fun _ => advance >>= fun _ =>
          (some <$> elseBranch (ifStatement n) (Parse.block n)) >>= fun alt =>
            originFrom s.span s.position >>= fun a => pure (.cond a c' t' alt)
      else pure none >>= fun alt => originFrom s.span s.position >>= fun a =>
          pure (.cond a c' t' alt) : Parse (Stmt Origin)) s₂ = _
    rw [State.atKeyword_of_words hs₃, ho]
    rfl
  · -- the branch is read, and the node is built from it
    have hbranch := h s₂.skipNewlines.next (hp₂.trans hp₃) (State.words_next hs₃)
    have hsome : Reads (some <$> elseBranch (ifStatement n) (Parse.block n))
        s₂.skipNewlines.next k'' ws'' fun alt => ∃ b', alt = some b' ∧ b'.shape = b :=
      hbranch.map fun b' hb' => ⟨b', rfl, hb'⟩
    refine (hsome.bind 0 [] fun alt _ _ halt => reads_node _ _ fun a => ?_).of_eq (by omega)
      (List.append_nil ws'')
    obtain ⟨b', rfl, hb'⟩ := halt
    show Stmt.cond () c'.shape (Stmt.shapes t') (some b'.shape) = _
    rw [hc', ht', hb']

/-- A conditional with a block after `else`. -/
theorem conditionalReads_elseBlock {body : List (Stmt Unit)}
    (condition : Expression k ws c) (consequent : Block k' ws' t) (h : BlockReads k' ws' t)
    (hgap : Newlines gap) (ho : o.kind = .keyword .elseKw) (alternative : Block k'' ws'' body)
    (h' : BlockReads k'' ws'' body) :
    ConditionalReads (max (max k k') k'') (w :: ws ++ ws' ++ gap ++ o :: ws'')
      (.cond () c t (some (.block () body))) := by
  rw [List.append_assoc (w :: ws ++ ws')]
  refine conditionalReads_of_tail _ _ _ condition consequent h
    (fun _ _ hwp => ((Bool.and_eq_true _ _).mp hwp).1) ?_
  intro n s s₂ c' t' rest hs₂ hn hrest hwp hc' ht'
  simp only [List.length_append, List.length_cons] at hn
  rw [List.append_assoc] at hs₂
  -- behind `else` comes no `if`
  refine conditionalTail_reads hs₂ hgap ho hc' ht' fun s₃ hp₃ hs₃ => ?_
  have hread := h' n s₃ rest hs₃ (by omega) (by
    rw [hp₃.functions, hp₃.loops]
    exact ((Bool.and_eq_true _ _).mp hwp).2)
  refine Reads.congr (q := Parse.block n >>= fun body => originFrom s₃.span s₃.position >>= fun a =>
    pure (.block a body)) ?_ ?_
  · show (if s₃.atKeyword .ifKw then nested (ifStatement n)
      else Parse.block n >>= fun body => originFrom s₃.span s₃.position >>= fun a =>
        -- the block starts with a brace
        pure (.block a body) : Parse (Stmt Origin)) s₃ = _
    obtain ⟨v, tail, rfl, hv⟩ : ∃ v tail, ws'' = v :: tail ∧ v.kind = .symbol .leftBrace := by
      cases alternative with
      | braces o c ho _ _ => exact ⟨o, _, rfl, ho⟩
    rw [State.atKeyword_of_words hs₃, hv]
    rfl
  · refine (hread.bind 0 [] fun b _ _ hb => reads_node _ _ fun a => ?_).of_eq (by omega)
      (List.append_nil ws'')
    show Stmt.block () (Stmt.shapes b) = _
    rw [hb]

/-- A conditional with another one after `else`. -/
theorem conditionalReads_elseIf {b : Stmt Unit}
    (condition : Expression k ws c) (consequent : Block k' ws' t) (h : BlockReads k' ws' t)
    (hgap : Newlines gap) (ho : o.kind = .keyword .elseKw) (alternative : Conditional k'' ws'' b)
    (h' : ConditionalReads k'' ws'' b) :
    ConditionalReads (max (max k k') (k'' + 1)) (w :: ws ++ ws' ++ gap ++ o :: ws'')
      (.cond () c t (some b)) := by
  rw [List.append_assoc (w :: ws ++ ws')]
  refine conditionalReads_of_tail _ _ _ condition consequent h
    (fun _ _ hwp => ((Bool.and_eq_true _ _).mp hwp).1) ?_
  intro n s s₂ c' t' rest hs₂ hn hrest hwp hc' ht'
  simp only [List.length_append, List.length_cons] at hn
  rw [List.append_assoc] at hs₂
  refine conditionalTail_reads hs₂ hgap ho hc' ht' fun s₃ hp₃ hs₃ => ?_
  have hread := h' n (s₃.atDepth (s₃.depth + 1)) rest hs₃ (by omega) hrest (by
    show b.wellPlaced (decide (0 < s₃.functions)) (decide (0 < s₃.loops)) = true
    rw [hp₃.functions, hp₃.loops]
    exact ((Bool.and_eq_true _ _).mp hwp).2)
  refine Reads.congr (q := nested (ifStatement n)) ?_ hread.nested
  show (if s₃.atKeyword .ifKw then nested (ifStatement n)
    else Parse.block n >>= fun body => originFrom s₃.span s₃.position >>= fun a =>
      pure (.block a body) : Parse (Stmt Origin)) s₃ = _
  obtain ⟨v, tail, rfl, hv⟩ := alternative.starts_if
  rw [State.atKeyword_of_words hs₃, hv]
  rfl

end Conditionals

/-! ## Lists of statements -/

section Statements

variable {k k' : Nat} {ws ws' gap rest : List Word} {t : Stmt Unit} {body : List (Stmt Unit)}
variable {n size : Nat} {inBlock : Bool} {s : State}

theorem State.atSeparator_of_endsStatements (h : EndsStatements inBlock s.words) :
    s.atSeparator inBlock = true := by
  cases inBlock with
  | true => exact State.atSeparator_of_words h.endsStatement.head
  | false =>
    have hs : s.words = [] := h
    rcases State.kind?_of_words_nil hs with hk | hk <;> rw [State.atSeparator, hk]

theorem State.atSeparator_of_separator {w : Word} (hs : s.words = w :: rest)
    (hw : IsSeparator w) : s.atSeparator inBlock = true := by
  rw [State.atSeparator, State.kind?_of_words hs]
  rcases hw with hk | hk <;> rw [hk]

/-- No more statements: only separators are left before the end. -/
theorem reads_noStatements (hgap : Separators gap) (hs : s.words = gap ++ rest) (hsize : 0 < size)
    (hrest : EndsStatements inBlock rest) :
    Reads (statements (statement n) inBlock size) s 0 gap fun b => Stmt.shapes b = [] := by
  obtain ⟨size, rfl⟩ : ∃ size', size = size' + 1 := ⟨size - 1, by omega⟩
  -- all separators are skipped, then the end is seen: a brace in a block, else no words
  have hhead : ∀ w ∈ rest.head?, ¬ IsSeparator w := by
    intro w hw hsep
    cases inBlock with
    | true =>
      obtain ⟨v, tail, rfl, hv⟩ := hrest
      rw [List.head?_cons, Option.mem_some_iff] at hw
      rw [← hw, IsSeparator, hv] at hsep
      exact absurd hsep (by simp)
    | false =>
      have hnil : rest = [] := hrest
      rw [hnil] at hw
      exact absurd hw (by simp)
  have hp := State.passed_skipSeparators_of_words hs hgap hhead
  have hs₁ := hp.words_right hs
  have hend : (s.skipSeparators.atEnd || (inBlock && s.skipSeparators.atSymbol .rightBrace))
      = true := by
    cases inBlock with
    | true =>
      obtain ⟨v, tail, rfl, hv⟩ := hrest
      rw [State.atSymbol_of_words hs₁, hv]
      simp
    | false =>
      have hnil : rest = [] := hrest
      rw [State.atEnd_eq_true_iff.mpr (hs₁.trans hnil)]
      rfl
  have hnil : Reads (pure [] : Parse (List (Stmt Origin))) s.skipSeparators 0 [] fun b =>
    Stmt.shapes b = [] := Reads.pure rfl
  refine (Reads.after hp ?_ hnil).of_eq rfl (List.append_nil gap)
  show (if s.skipSeparators.atEnd || (inBlock && s.skipSeparators.atSymbol .rightBrace) then
      pure []
    else statement n >>= fun first => get >>= fun s₁ => if s₁.atSeparator inBlock then
        statements (statement n) inBlock size >>= fun others => pure (first :: others)
      else unexpected .separator : Parse (List (Stmt Origin))) s.skipSeparators = _
  rw [hend]
  rfl

/-- **One more statement** at the front of a list; `others` reads what comes after it. -/
theorem reads_moreStatements {tail : List Word} (statement : Statement k ws t)
    (h : StatementReads k ws t) (hgap : Separators gap) (hs : s.words = gap ++ (ws ++ tail))
    (hn : 16 * ws.length + 1 ≤ n) (htail : EndsStatement tail)
    (hwp : t.wellPlaced (decide (0 < s.functions)) (decide (0 < s.loops)) = true)
    (hothers : ∀ s₁, Passed s s₁ (gap ++ ws) → s₁.words = tail →
      s₁.atSeparator inBlock = true ∧
      Reads (statements (Parse.statement n) inBlock size) s₁ k' ws' fun b =>
        Stmt.shapes b = body) :
    Reads (statements (Parse.statement n) inBlock (size + 1)) s (max k k') (gap ++ (ws ++ ws'))
      fun b => Stmt.shapes b = t :: body := by
  obtain ⟨w, ws₀, hws, hw⟩ := statement.starts
  have hsep : ∀ v ∈ (ws ++ tail).head?, ¬ IsSeparator v := by
    intro v hv
    rw [hws, List.cons_append, List.head?_cons, Option.mem_some_iff] at hv
    rw [← hv]
    exact not_isSeparator_of_startsStatement hw
  have hp := State.passed_skipSeparators_of_words hs hgap hsep
  have hs₁ := hp.words_right hs
  have hs₁' : s.skipSeparators.words = w :: (ws₀ ++ tail) := by
    rw [hs₁, hws, List.cons_append]
  -- a word that starts a statement is no end of the list
  have hend : (s.skipSeparators.atEnd || (inBlock && s.skipSeparators.atSymbol .rightBrace))
      = false := by
    have hnot : s.skipSeparators.atEnd = false := by
      refine eq_false_of_ne_true fun h => ?_
      rw [State.atEnd_eq_true_iff, hs₁'] at h
      exact absurd h (by simp)
    have hbrace : s.skipSeparators.atSymbol .rightBrace = false := by
      rw [State.atSymbol_of_words hs₁']
      refine beq_false_of_ne fun hk => ?_
      rw [hk] at hw
      exact absurd hw (by decide)
    rw [hnot, hbrace, Bool.and_false]
    rfl
  refine Reads.after (q := Parse.statement n >>= fun first => get >>= fun s₁ =>
    if s₁.atSeparator inBlock then
      statements (Parse.statement n) inBlock size >>= fun others => pure (first :: others)
    else unexpected .separator) hp ?_ ?_
  · show (if s.skipSeparators.atEnd || (inBlock && s.skipSeparators.atSymbol .rightBrace) then
        pure []
      else Parse.statement n >>= fun first => get >>= fun s₁ => if s₁.atSeparator inBlock then
          statements (Parse.statement n) inBlock size >>= fun others => pure (first :: others)
        else unexpected .separator : Parse (List (Stmt Origin))) s.skipSeparators = _
    rw [hend]
    rfl
  · have hread := h n s.skipSeparators tail hs₁ hn htail
      (by rw [hp.functions, hp.loops]; exact hwp)
    refine hread.bind k' ws' fun b s₂ hp₂ hb => ?_
    obtain ⟨hat, hlist⟩ := hothers s₂ (hp.trans hp₂) (hp₂.words_right hs₁)
    refine Reads.congr (q := statements (Parse.statement n) inBlock size >>= fun others =>
      pure (b :: others)) ?_ ?_
    · show (if s₂.atSeparator inBlock then
          statements (Parse.statement n) inBlock size >>= fun others => pure (b :: others)
        else unexpected .separator : Parse (List (Stmt Origin))) s₂ = _
      rw [hat]
      rfl
    · refine (hlist.bind 0 [] fun bs _ _ hbs => Reads.pure ?_).of_eq (by omega)
        (List.append_nil ws')
      show b.shape :: Stmt.shapes bs = _
      rw [hb, hbs]

theorem statementsReads_none (hgap : Separators gap) : StatementsReads 0 gap [] := by
  intro n size inBlock s gap' rest hgap' hs hn hsize hrest _
  have hs : s.words = (gap' ++ gap) ++ rest := by rw [hs, List.append_assoc]
  exact reads_noStatements (hgap'.append hgap) hs (by omega) hrest

theorem statementsReads_last (hgap : Separators gap) (statement : Statement k ws t)
    (h : StatementReads k ws t) : StatementsReads k (gap ++ ws) [t] := by
  intro n size inBlock s gap' rest hgap' hs hn hsize hrest hwp
  have hpos := statement.starts.length_pos
  simp only [List.length_append] at hn hsize
  obtain ⟨size, rfl⟩ : ∃ size', size = size' + 1 := ⟨size - 1, by omega⟩
  have hs : s.words = (gap' ++ gap) ++ (ws ++ rest) := by
    rw [hs]; simp only [List.append_assoc]
  have hwp := ((Bool.and_eq_true _ _).mp hwp).1
  have hread : Reads (statements (Parse.statement n) inBlock (size + 1)) s (max k 0)
      (gap' ++ gap ++ (ws ++ [])) fun b => Stmt.shapes b = [t] := by
    refine reads_moreStatements statement h (hgap'.append hgap) hs (by omega) hrest.endsStatement
      hwp fun s₁ _ hs₁ => ⟨?_, ?_⟩
    · exact State.atSeparator_of_endsStatements (by rw [hs₁]; exact hrest)
    · have hnone : Separators [] := fun _ hw => absurd hw (by simp)
      exact reads_noStatements hnone hs₁ (by omega) hrest
  exact hread.of_eq (by omega) (by simp only [List.append_assoc, List.append_nil])

theorem statementsReads_more {w : Word} (hgap : Separators gap) (statement : Statement k ws t)
    (h : StatementReads k ws t) (hw : IsSeparator w) (others : Statements k' ws' body)
    (h' : StatementsReads k' ws' body) :
    StatementsReads (max k k') (gap ++ ws ++ w :: ws') (t :: body) := by
  intro n size inBlock s gap' rest hgap' hs hn hsize hrest hwp
  have hpos := statement.starts.length_pos
  simp only [List.length_append, List.length_cons] at hn hsize
  obtain ⟨size, rfl⟩ : ∃ size', size = size' + 1 := ⟨size - 1, by omega⟩
  have hs : s.words = (gap' ++ gap) ++ (ws ++ (w :: (ws' ++ rest))) := by
    rw [hs]; simp only [List.append_assoc, List.cons_append]
  obtain ⟨hwp, hwp'⟩ := (Bool.and_eq_true _ _).mp hwp
  -- a separator ends the statement in front of it, and what follows the list is no `else`
  have hends : EndsStatement (w :: (ws' ++ rest)) := by
    refine ⟨fun v hv => Or.inl ?_, (others.noElse hrest.endsStatement.noElse).cons hw.ne_else⟩
    rw [List.head?_cons, Option.mem_some_iff] at hv
    rw [← hv]
    exact hw
  have hread : Reads (statements (Parse.statement n) inBlock (size + 1)) s (max k k')
      (gap' ++ gap ++ (ws ++ w :: ws')) fun b => Stmt.shapes b = t :: body := by
    refine reads_moreStatements statement h (hgap'.append hgap) hs (by omega) hends hwp
      fun s₁ hp hs₁ => ⟨State.atSeparator_of_separator hs₁ hw, ?_⟩
    -- the separator is left to the rest of the list
    have hone : Separators [w] := by
      intro v hv
      rw [List.mem_singleton.mp hv]
      exact hw
    exact h' n size inBlock s₁ [w] rest hone hs₁ (by omega) (by omega) hrest
      (by rw [hp.functions, hp.loops]; exact hwp')
  exact hread.of_eq rfl (by simp only [List.append_assoc])

/-- Statements in braces. -/
theorem blockReads_braces {o c : Word} (ho : o.kind = .symbol .leftBrace)
    (h : StatementsReads k ws body) (hc : c.kind = .symbol .rightBrace) :
    BlockReads (k + 1) (o :: ws ++ [c]) body := by
  intro n s rest hs hn hwp
  simp only [List.length_append, List.length_cons, List.length_nil] at hn
  -- the bound allows for the braces
  obtain ⟨n, rfl⟩ : ∃ n', n = n' + 1 := ⟨n - 1, by omega⟩
  have hs : s.words = [o] ++ (ws ++ (c :: rest)) := by
    rw [hs]; simp only [List.append_assoc, List.cons_append, List.nil_append]
  -- the opening brace, then the statements one level deeper, then the closing brace
  have hopen : Reads (expect .leftBrace .leftBrace) s 0 [o] fun _ => True := reads_expect hs ho
  refine (Reads.congr (q := expect .leftBrace .leftBrace >>= fun _ =>
    deeper (statements (statement n) true n) >>= fun body =>
      expect .rightBrace .rightBrace >>= fun _ => pure body) ?_
    (hopen.bind (k + 1) (ws ++ [c]) fun _ s₁ hp₁ _ => ?_)).of_eq (by omega) rfl
  · show braced n (statement n) s = _
    simp only [braced, deeper, bind_assoc, pure_bind]
  · have hs₁ := hp₁.words_right hs
    -- the list in the braces ends at the closing one
    have hread := h n n true (s₁.atDepth (s₁.depth + 1)) [] (c :: rest)
      (fun _ hw => absurd hw (by simp)) hs₁ (by omega) (by omega) ⟨c, rest, rfl, hc⟩
      (by
        show Stmt.allWellPlaced (decide (0 < s₁.functions)) (decide (0 < s₁.loops)) body = true
        rw [hp₁.functions, hp₁.loops]
        exact hwp)
    refine (hread.deeper.bind 0 [c] fun b s₂ hp₂ hb => ?_).of_eq (by omega) rfl
    exact (reads_expect (hp₂.words_right hs₁) hc).bind 0 [] fun _ _ _ _ => Reads.pure hb

end Statements

mutual

/-- **Every derivation of a statement is found**, where the context conditions hold. -/
theorem statement_complete {k : Nat} {ws : List Word} {t : Stmt Unit} :
    Statement k ws t → StatementReads k ws t
  -- no expression starts with `if`
  | .expr value => by
    refine statementReads_simple value.starts.startsStatement ?_ (nodeReads_expr value)
    obtain ⟨w, rest, rfl, hw⟩ := value.starts
    intro v hv hk
    rw [List.head?_cons, Option.mem_some_iff] at hv
    rw [hv, hk] at hw
    exact absurd hw (by decide)
  | .declare w x hw hx => statementReads_simple (startsStatement_cons _ hw rfl) (by simp [hw])
      (nodeReads_declare hw hx)
  | .declareAs w x eq gap hw hx heq hgap value => statementReads_simple
      (startsStatement_cons _ hw rfl) (by simp [hw]) (nodeReads_declareAs hw hx heq hgap value)
  | .print w o hw ho arguments => statementReads_simple (startsStatement_cons _ hw rfl)
      (by simp [hw]) (nodeReads_print hw ho arguments)
  | .block block => by
    refine statementReads_simple block.starts ?_ (nodeReads_block block (block_complete block))
    cases block with
    | braces o c ho _ _ => simp [ho]
  | .cond conditional => by
    intro n s rest hs hn hrest hwp
    obtain ⟨n, rfl⟩ : ∃ n', n = n' + 1 := ⟨n - 1, by omega⟩
    refine Reads.congr (q := ifStatement n) ?_
      (conditional_complete conditional n s rest hs (by omega) hrest hwp)
    obtain ⟨w, tail, hws, hw⟩ := conditional.starts_if
    show (if s.atKeyword .ifKw then ifStatement n
      else simpleStatement n (expression n) (block n) >>= fun node =>
        originFrom s.span s.position >>= fun a => pure (node a) : Parse (Stmt Origin)) s = _
    rw [hws] at hs
    rw [State.atKeyword_of_words hs, hw]
    rfl
  | .loop w hw condition block => statementReads_simple (startsStatement_cons _ hw rfl)
      (by simp [hw]) (nodeReads_loop hw condition block (block_complete block))
  | .function w f o hw hf ho parameters block => statementReads_simple
      (startsStatement_cons _ hw rfl) (by simp [hw])
      (nodeReads_function hw hf ho parameters (block_complete block))
  | .ret w hw => statementReads_simple (startsStatement_cons _ hw rfl) (by simp [hw])
      (nodeReads_ret hw)
  | .retValue w hw value => statementReads_simple (startsStatement_cons _ hw rfl) (by simp [hw])
      (nodeReads_retValue hw value)
  | .breakLoop w hw => statementReads_simple (startsStatement_cons _ hw rfl) (by simp [hw])
      (nodeReads_breakLoop hw)
  | .continueLoop w hw => statementReads_simple (startsStatement_cons _ hw rfl) (by simp [hw])
      (nodeReads_continueLoop hw)

theorem conditional_complete {k : Nat} {ws : List Word} {t : Stmt Unit} :
    Conditional k ws t → ConditionalReads k ws t
  | .plain _ _ condition consequent =>
    conditionalReads_plain condition consequent (block_complete consequent)
  | .elseBlock _ _ _ _ condition consequent hgap he alternative =>
    conditionalReads_elseBlock condition consequent (block_complete consequent) hgap he alternative
      (block_complete alternative)
  | .elseIf _ _ _ _ condition consequent hgap he alternative =>
    conditionalReads_elseIf condition consequent (block_complete consequent) hgap he alternative
      (conditional_complete alternative)

theorem block_complete {k : Nat} {ws : List Word} {body : List (Stmt Unit)} :
    Block k ws body → BlockReads k ws body
  | .braces _ _ ho statements hc => blockReads_braces ho (statements_complete statements) hc

theorem statements_complete {k : Nat} {ws : List Word} {body : List (Stmt Unit)} :
    Statements k ws body → StatementsReads k ws body
  | .none _ hgap => statementsReads_none hgap
  | .last _ hgap statement => statementsReads_last hgap statement (statement_complete statement)
  | .more _ _ hgap statement hw others =>
    statementsReads_more hgap statement (statement_complete statement) hw others
      (statements_complete others)

end

end Parse

end Scriptlet
