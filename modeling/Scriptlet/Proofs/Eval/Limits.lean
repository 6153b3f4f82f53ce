/-
  Limits: a run under looser limits, and with a larger bound on its steps.

  1. **Prolonging** (`Eval.Prolongs`) — a computation does what another does on the same machine,
     unless the other is cut short; then it prints what the other printed before, and perhaps more.
     What counts as cutting short is a parameter: only the bound on steps, or a limit as well.
  2. **Rules** — one for each way to put computations together.  Printing only ever appends, so
     whatever follows a computation that was cut short keeps the prefix.
  3. **The crux (`prolonged`)** — every expression, call, statement and loop prolongs itself.  Both
     counters are what they were when a part is entered again, so the only place where the limits
     are seen is a part that one run refuses to enter.
  4. **The result (`finishes_of_le`)** — looser limits change nothing in a run that stays within the
     tighter ones, and only append to the output of a run that does not.
-/
import Scriptlet.Proofs.Eval.Simulation

namespace Scriptlet

variable {α β γ : Type}

/-! ## Printing appends -/

namespace Machine

/-- The second machine has printed what the first has, and perhaps more. -/
def Printed (m m' : Machine α) : Prop := m.output.toList <+: m'.output.toList

variable {m m' m'' : Machine α}

theorem Printed.refl (m : Machine α) : m.Printed m := List.prefix_rfl

/-- What was printed stays printed. -/
theorem Printed.trans (h : m.Printed m') (h' : m'.Printed m'') : m.Printed m'' :=
  List.IsPrefix.trans h h'

/-- The same output. -/
theorem Printed.of_eq (h : m'.output = m.output) : m.Printed m' :=
  ⟨[], by rw [List.append_nil, h]⟩

/-- A segment is appended. -/
theorem printed_printSegment (m : Machine α) (segment : String) :
    m.Printed (m.printSegment segment) := by
  unfold Printed printSegment
  rw [Array.toList_push]
  exact List.prefix_append _ _

/-- Ending a scope prints nothing. -/
theorem output_endScope (settings : Settings) (held : List Value) (i : ScopeId) (m : Machine α) :
    (m.endScope settings held i).output = m.output := by
  unfold endScope
  split
  · dsimp only
    split
    · rw [collect_eq]
      rfl
    · rfl
  · rfl

/-- Binding arguments prints nothing. -/
theorem output_bindParams (scope : ScopeId) (params : List String) (values : List Value)
    (m : Machine α) : (Eval.bindParams scope params values m).output = m.output :=
  Eval.bindParams_keeps (P := fun k => k.output = m.output) (fun _ _ _ h => h) params values rfl

end Machine

namespace Eval

open Machine (Printed)

/-! ## Prolonging -/

/-- `r'` is `r`, or `r` was cut short and `r'` has printed what it did, and perhaps more. -/
def Continues (cut : Halt α → Prop) (r r' : EStateM.Result (Halt α) (Machine α) β) : Prop :=
  r' = r ∨ ∃ e m, r = .error e m ∧ cut e ∧ m.Printed (left r')

/-- `q` only appends to the output, and does what `p` does unless `p` is cut short. -/
structure Prolongs (cut : Halt α → Prop) (p q : Eval α β) : Prop where
  printed : ∀ m : Machine α, m.Printed (left (q m))
  continues : ∀ m, Continues cut (p m) (q m)

section Rules

variable {cut : Halt α → Prop} {p q : Eval α β} {f g : β → Eval α γ}

/-- A computation that only appends to the output prolongs itself. -/
theorem Prolongs.refl (h : ∀ m : Machine α, m.Printed (left (p m))) : Prolongs cut p p :=
  ⟨h, fun _ => .inl rfl⟩

theorem pure_prolongs {b : β} : Prolongs cut (pure b : Eval α β) (pure b) :=
  .refl fun m => .refl m

/-- A run that stops for a reason of its own stops for it under looser limits. -/
theorem throw_prolongs (e : Halt α) : Prolongs cut (throw e : Eval α β) (throw e) :=
  .refl fun m => .refl m

theorem fail_prolongs (cause : RuntimeFault) (site : α) :
    Prolongs cut (fail cause site : Eval α β) (fail cause site) :=
  throw_prolongs _

/-- Operators have no limits. -/
theorem lift_prolongs (site : α) (r : Except RuntimeFault β) :
    Prolongs cut (lift site r) (lift site r) := by
  cases r with
  | ok b => exact pure_prolongs
  | error cause => exact fail_prolongs cause site

/-- A change that prints nothing away. -/
theorem modify_prolongs {f : Machine α → Machine α} (h : ∀ m : Machine α, m.Printed (f m)) :
    Prolongs cut (modify f : Eval α PUnit) (modify f) :=
  .refl h

/-- Being cut short at once is prolonged by whatever only appends to the output. -/
theorem Prolongs.cutShort (h : Prolongs cut p q) {e : Halt α} (he : cut e) :
    Prolongs cut (throw e) q :=
  ⟨h.printed, fun m => .inr ⟨e, m, rfl, he, h.printed m⟩⟩

/-- What is done with the machine at hand. -/
theorem get_prolongs {f g : Machine α → Eval α β} (h : ∀ m, Prolongs cut (f m) (g m)) :
    Prolongs cut (get >>= f) (get >>= g) :=
  ⟨fun m => (h m).printed m, fun m => (h m).continues m⟩

/-- **One computation after another.** -/
theorem Prolongs.bind (h : Prolongs cut p q) (hnext : ∀ b, Prolongs cut (f b) (g b)) :
    Prolongs cut (p >>= f) (q >>= g) := by
  have hafter : ∀ m, (left (q m)).Printed (left ((q >>= g) m)) := by
    intro m
    show (left (q m)).Printed (left (EStateM.bind q g m))
    unfold EStateM.bind
    cases q m with
    | ok b m' => exact (hnext b).printed m'
    | error e m' => exact .refl m'
  refine ⟨fun m => (h.printed m).trans (hafter m), fun m => ?_⟩
  rcases h.continues m with hsame | ⟨e, m', hp, he, hprinted⟩
  · show Continues cut (EStateM.bind p f m) (EStateM.bind q g m)
    unfold EStateM.bind
    rw [hsame]
    cases p m with
    | ok b m' => exact (hnext b).continues m'
    | error e m' => exact .inl rfl
  · -- the first part was cut short, and whatever follows in the other run only appends
    refine .inr ⟨e, m', ?_, he, hprinted.trans (hafter m)⟩
    show EStateM.bind p f m = .error e m'
    unfold EStateM.bind
    rw [hp]

/-- A tidy-up that prints nothing. -/
theorem Prolongs.always (h : Prolongs cut p q) {tidy : Machine α → Machine α}
    (htidy : ∀ m, (tidy m).output = m.output) :
    Prolongs cut (Scriptlet.always tidy p) (Scriptlet.always tidy q) := by
  have hleft : ∀ m, (left (Scriptlet.always tidy q m)).output = (left (q m)).output := by
    intro m
    unfold Scriptlet.always
    cases q m <;> exact htidy _
  refine ⟨fun m => (h.printed m).trans (.of_eq (hleft m)), fun m => ?_⟩
  rcases h.continues m with hsame | ⟨e, m', hp, he, hprinted⟩
  · unfold Scriptlet.always
    rw [hsame]
    exact .inl rfl
  · refine .inr ⟨e, tidy m', ?_, he, ?_⟩
    · unfold Scriptlet.always
      rw [hp]
    · exact (Machine.Printed.of_eq (htidy m').symm).trans (hprinted.trans (.of_eq (hleft m)))

/-- A part inside a change of a counter that is undone on every way out. -/
theorem Prolongs.counted (h : Prolongs cut p q) (count tidy : Machine α → Machine α)
    (hcount : ∀ m, (count m).output = m.output) (htidy : ∀ m, (tidy m).output = m.output) :
    Prolongs cut (do modify count; Scriptlet.always tidy p)
      (do modify count; Scriptlet.always tidy q) :=
  (modify_prolongs fun m => .of_eq (hcount m)).bind fun _ => h.always htidy

/-- Counting a call prints nothing. -/
theorem Prolongs.inCall (h : Prolongs cut p q) : Prolongs cut (inCall p) (inCall q) :=
  h.counted (fun m => { m with calls := m.calls + 1 }) (fun m => { m with calls := m.calls - 1 })
    (fun _ => rfl) fun _ => rfl

/-- Settings under which a run goes at least as far: whatever stops a run under the tighter ones and
    not under the looser ones counts as cutting it short. -/
structure Loosens (cut : Halt α → Prop) (tight loose : Settings) : Prop where
  fuel : cut .outOfFuel
  reclaim : loose.reclaim = tight.reclaim
  calls_le : tight.limits.calls ≤ loose.limits.calls
  depth_le : tight.limits.depth ≤ loose.limits.depth
  calls : tight.limits.calls = loose.limits.calls ∨
    ∀ site, cut (.fault ⟨.callDepthExceeded tight.limits.calls, site⟩)
  depth : tight.limits.depth = loose.limits.depth ∨
    ∀ site, cut (.fault ⟨.depthExceeded tight.limits.depth, site⟩)

variable {tight loose : Settings}

/-- **A part that a limit may refuse to enter**: the looser limit admits whatever the tighter one
    does. -/
theorem prolongs_limit {n limit limit' : Nat} (cause : Nat → RuntimeFault) {site : α}
    (hle : limit ≤ limit') (hcut : limit = limit' ∨ cut (.fault ⟨cause limit, site⟩))
    (h : Prolongs cut p q) :
    Prolongs cut (if n < limit then p else fail (cause limit) site)
      (if n < limit' then q else fail (cause limit') site) := by
  by_cases hn : n < limit
  · rw [if_pos hn, if_pos (Nat.lt_of_lt_of_le hn hle)]
    exact h
  · rw [if_neg hn]
    rcases hcut with rfl | hcut
    · rw [if_neg hn]
      exact fail_prolongs _ site
    · split
      · exact h.cutShort hcut
      · exact (fail_prolongs _ site).cutShort hcut

/-- Either both go one level deeper, or the tighter limit cuts the first run short. -/
theorem Prolongs.descend (h : Prolongs cut p q) (hl : Loosens cut tight loose) (site : α) :
    Prolongs cut (descend tight site p) (descend loose site q) := by
  refine get_prolongs fun m => ?_
  refine prolongs_limit .depthExceeded hl.depth_le (hl.depth.imp_right (· site)) ?_
  exact h.counted _ _ (fun _ => rfl) fun _ => rfl

/-- Limits do not matter when a scope ends. -/
theorem Loosens.endScope_eq (hl : Loosens cut tight loose) (m : Machine α) (values : List Value)
    (i : ScopeId) : m.endScope loose values i = m.endScope tight values i := by
  unfold Machine.endScope
  rw [hl.reclaim]

/-- Scopes have no limits of their own. -/
theorem Prolongs.inScope {p q : ScopeId → Eval α β} (h : ∀ i, Prolongs cut (p i) (q i))
    (hl : Loosens cut tight loose) (held : List Value) (parent : ScopeId)
    (needed : β → List Value) :
    Prolongs cut (inScope tight held parent needed p) (inScope loose held parent needed q) := by
  -- ending a scope prints nothing
  have hleft : ∀ m : Machine α, (left (Eval.inScope loose held parent needed q m)).output =
      (left (q (m.arena.nextSlot parent) (m.opening parent))).output := by
    intro m
    rw [inScope_eq]
    cases q (m.arena.nextSlot parent) (m.opening parent) <;> exact Machine.output_endScope ..
  refine ⟨fun m => ?_, fun m => ?_⟩
  · exact ((h _).printed (m.opening parent)).trans (.of_eq (hleft m))
  · -- the body comes to the same end, or it was cut short
    rcases (h (m.arena.nextSlot parent)).continues (m.opening parent) with
      hsame | ⟨e, m', hp, he, hprinted⟩
    · refine .inl ?_
      rw [inScope_eq, inScope_eq, hsame]
      simp only [hl.endScope_eq]
    · refine .inr ⟨e, _, by rw [inScope_eq, hp], he, ?_⟩
      exact (Machine.Printed.of_eq (Machine.output_endScope ..).symm).trans
        (hprinted.trans (.of_eq (hleft m)))

end Rules

/-! ## Lists -/

section Lists

variable {cut : Halt α → Prop}

/-- Argument by argument. -/
theorem arguments_prolongs {eval eval' : List Value → Expr α → Eval α Value}
    (h : ∀ held e, Prolongs cut (eval held e) (eval' held e)) (es : List (Expr α))
    (held : List Value) : Prolongs cut (arguments eval held es) (arguments eval' held es) := by
  induction es generalizing held with
  | nil => exact pure_prolongs
  | cons e rest ih =>
    refine (h held e).bind fun v => ?_
    exact (ih (v :: held)).bind fun others => pure_prolongs

theorem texts_prolongs {eval eval' : Expr α → Eval α Value}
    (h : ∀ e, Prolongs cut (eval e) (eval' e)) (es : List (Expr α)) :
    Prolongs cut (texts eval es) (texts eval' es) := by
  induction es with
  | nil => exact pure_prolongs
  | cons e rest ih =>
    refine (h e).bind fun v => ?_
    exact ih.bind fun others => pure_prolongs

/-- Statement by statement, up to the first that does not end normally. -/
theorem sequence_prolongs {exec exec' : Stmt α → Eval α Flow}
    (h : ∀ s, Prolongs cut (exec s) (exec' s)) (body : List (Stmt α)) :
    Prolongs cut (sequence exec body) (sequence exec' body) := by
  induction body with
  | nil => exact pure_prolongs
  | cons s rest ih =>
    refine (h s).bind fun flow => ?_
    cases flow with
    | normal => exact ih
    | breaking => exact pure_prolongs
    | continuing => exact pure_prolongs
    | returning v => exact pure_prolongs

theorem optional_prolongs {eval eval' : Expr α → Eval α Value}
    (h : ∀ e, Prolongs cut (eval e) (eval' e)) (e : Option (Expr α)) :
    Prolongs cut (optional eval e) (optional eval' e) := by
  cases e with
  | none => exact pure_prolongs
  | some e => exact h e

end Lists

/-! ## Expressions, calls and statements -/

/-- Everything prolongs itself, under looser settings and a larger bound on steps. -/
structure Prolonged (cut : Halt α → Prop) (tight loose : Settings) (fuel fuel' : Nat) : Prop where
  eval : ∀ held scope e, Prolongs cut (eval tight fuel held scope e) (eval loose fuel' held scope e)
  call : ∀ held site f values,
    Prolongs cut (call tight fuel held site f values) (call loose fuel' held site f values)
  exec : ∀ held scope s, Prolongs cut (exec tight fuel held scope s) (exec loose fuel' held scope s)
  turns : ∀ held scope c body,
    Prolongs cut (turns tight fuel held scope c body) (turns loose fuel' held scope c body)

section Steps

variable {cut : Halt α → Prop} {tight loose : Settings} {fuel fuel' : Nat}

/-- An expression prolongs itself, one case for each kind of node. -/
theorem eval_prolongs (hl : Loosens cut tight loose) (ih : Prolonged cut tight loose fuel fuel')
    (held : List Value) (scope : ScopeId) (e : Expr α) :
    Prolongs cut (eval tight (fuel + 1) held scope e) (eval loose (fuel' + 1) held scope e) := by
  rw [eval.eq_def, eval.eq_def]
  refine Prolongs.descend ?_ hl e.note
  cases e with
  | literal _ v => exact pure_prolongs
  | name site x =>
    refine get_prolongs fun m => ?_
    cases m.arena.get? scope x with
    -- both runs look up in the same machine
    | some v => exact pure_prolongs
    | none => exact fail_prolongs _ site
  | unary site op e => exact (ih.eval held scope e).bind fun v => lift_prolongs site (op.apply v)
  | operation site op left right =>
    refine (ih.eval held scope left).bind fun l => ?_
    have hright := ih.eval (l :: held) scope right
    cases op with
    | logical op =>
      -- the left operand may decide in both runs
      dsimp only
      split
      · exact pure_prolongs
      · exact hright
    | binary op => exact hright.bind fun r => lift_prolongs site (op.apply l r)
  | assign _ x e =>
    refine (ih.eval held scope e).bind fun v => ?_
    refine (modify_prolongs fun m => ?_).bind fun _ => pure_prolongs
    exact .of_eq rfl
  | call site callee args =>
    refine (ih.eval held scope callee).bind fun f => ?_
    have hargs := arguments_prolongs (fun held e => ih.eval held scope e) args (f :: held)
    exact hargs.bind fun values => ih.call held site f values

/-- Built-in functions have no limits. -/
theorem callBuiltin_prolongs (site : α) (b : Builtin) (values : List Value) :
    Prolongs cut (callBuiltin site b values) (callBuiltin site b values) := by
  match values with
  | [v] => exact lift_prolongs site (b.apply v)
  | [] | _ :: _ :: _ => exact fail_prolongs _ site

/-- Nor has what a call gives. -/
theorem result_prolongs (site : α) (flow : Flow) :
    Prolongs cut (result site flow) (result site flow) := by
  cases flow with
  | normal => exact pure_prolongs
  | returning v => exact pure_prolongs
  | breaking | continuing => exact fail_prolongs _ site

/-- Either both runs enter the call, or the tighter limit cuts the first one short. -/
theorem call_prolongs (hl : Loosens cut tight loose) (ih : Prolonged cut tight loose fuel fuel')
    (held : List Value) (site : α) (f : Value) (values : List Value) :
    Prolongs cut (call tight (fuel + 1) held site f values)
      (call loose (fuel' + 1) held site f values) := by
  rw [call.eq_def, call.eq_def]
  cases f with
  | builtin b => exact callBuiltin_prolongs site b values
  | nil | bool _ | integer _ | float _ | str _ => exact fail_prolongs _ site
  | function id name =>
    refine get_prolongs fun m => ?_
    cases m.closure? id with
    | none => exact fail_prolongs _ site
    | some c =>
      dsimp only
      split
      · -- the number of arguments is no limit
        exact fail_prolongs _ site
      · have hbody := fun scope => (modify_prolongs fun m =>
            Machine.Printed.of_eq (Machine.output_bindParams scope c.params values m)).bind fun _ =>
          (sequence_prolongs (fun s => ih.exec (.function id name :: held) scope s) c.body).inCall
        have hcall := (Prolongs.inScope hbody hl (.function id name :: held) c.scope
          Flow.values).bind fun flow => result_prolongs site flow
        have hlimit := prolongs_limit (n := m.calls) .callDepthExceeded hl.calls_le
          (hl.calls.imp_right (· site)) hcall
        -- the limit on calls is the one place where the runs part
        simp only [← Nat.not_lt, ite_not]
        exact hlimit

/-- A body in a scope of its own. -/
theorem block_prolongs (hl : Loosens cut tight loose) (ih : Prolonged cut tight loose fuel fuel')
    (held : List Value) (scope : ScopeId) (body : List (Stmt α)) :
    Prolongs cut
      (inScope tight held scope Flow.values fun inner =>
        sequence (exec tight fuel held inner) body)
      (inScope loose held scope Flow.values fun inner =>
        sequence (exec loose fuel' held inner) body) :=
  Prolongs.inScope (fun inner => sequence_prolongs (ih.exec held inner) body) hl held scope _

/-- A statement prolongs itself, one case for each kind. -/
theorem exec_prolongs (hl : Loosens cut tight loose) (ih : Prolonged cut tight loose fuel fuel')
    (held : List Value) (scope : ScopeId) (s : Stmt α) :
    Prolongs cut (exec tight (fuel + 1) held scope s) (exec loose (fuel' + 1) held scope s) := by
  -- statements that print at most
  have hmodify : ∀ {f : Machine α → Machine α}, (∀ m : Machine α, m.Printed (f m)) →
      Prolongs cut (do modify f; return Flow.normal) (do modify f; return Flow.normal) :=
    fun hf => (modify_prolongs hf).bind fun _ => pure_prolongs
  rw [exec.eq_def, exec.eq_def]
  refine Prolongs.descend ?_ hl s.note
  cases s with
  | expr _ e => exact (ih.eval held scope e).bind fun _ => pure_prolongs
  | declare _ x e =>
    refine (optional_prolongs (ih.eval held scope) e).bind fun v => ?_
    exact hmodify fun m => .of_eq rfl
  | print _ args =>
    refine (texts_prolongs (ih.eval held scope) args).bind fun parts => ?_
    exact hmodify fun m => m.printed_printSegment (" ".intercalate parts)
  | block _ body => exact block_prolongs hl ih held scope body
  | cond _ condition consequent alternative =>
    refine (ih.eval held scope condition).bind fun c => ?_
    -- both runs take the same branch
    split
    · exact block_prolongs hl ih held scope consequent
    · cases alternative with
      | none => exact pure_prolongs
      | some branch => exact ih.exec held scope branch
  | loop _ condition body => exact ih.turns held scope condition body
  | function _ f params body =>
    refine hmodify fun m => .of_eq ?_
    rw [Machine.define_eq]
    rfl
  | ret _ e =>
    exact (optional_prolongs (ih.eval held scope) e).bind fun v => pure_prolongs
  | breakLoop _ => exact pure_prolongs
  | continueLoop _ => exact pure_prolongs

/-- Turn by turn; the looser bound has steps to spare. -/
theorem turns_prolongs (hl : Loosens cut tight loose) (ih : Prolonged cut tight loose fuel fuel')
    (held : List Value) (scope : ScopeId) (c : Expr α) (body : List (Stmt α)) :
    Prolongs cut (turns tight (fuel + 1) held scope c body)
      (turns loose (fuel' + 1) held scope c body) := by
  rw [turns, turns]
  refine (ih.eval held scope c).bind fun v => ?_
  split
  · refine (block_prolongs hl ih held scope body).bind fun flow => ?_
    cases flow with
    | normal | continuing => exact ih.turns held scope c body
    | breaking => exact pure_prolongs
    | returning v => exact pure_prolongs
  · exact pure_prolongs

/-- One step more on both sides. -/
theorem Prolonged.step (hl : Loosens cut tight loose) (ih : Prolonged cut tight loose fuel fuel') :
    Prolonged cut tight loose (fuel + 1) (fuel' + 1) :=
  ⟨eval_prolongs hl ih, call_prolongs hl ih, exec_prolongs hl ih, turns_prolongs hl ih⟩

/-- **Every part of a run prolongs itself.** -/
theorem prolonged (hl : Loosens cut tight loose) (hfuel : fuel ≤ fuel') :
    Prolonged cut tight loose fuel fuel' := by
  induction fuel' generalizing fuel with
  | zero =>
    obtain rfl := Nat.le_zero.mp hfuel
    refine ⟨fun held scope e => ?_, fun held site f values => ?_, fun held scope s => ?_,
      fun held scope c body => ?_⟩
    · rw [eval, eval]
      exact throw_prolongs _
    · rw [call, call]
      exact throw_prolongs _
    · rw [exec, exec]
      exact throw_prolongs _
    · rw [turns, turns]
      exact throw_prolongs _
  | succ fuel' ih =>
    cases fuel with
    | succ fuel => exact (ih (Nat.le_of_succ_le_succ hfuel)).step hl
    | zero =>
      -- no step is left in the first run; that the second only appends is known from its parts
      have hnext := (ih (Nat.zero_le fuel')).step hl
      refine ⟨fun held scope e => ?_, fun held site f values => ?_, fun held scope s => ?_,
        fun held scope c body => ?_⟩
      · rw [eval]
        exact (hnext.eval held scope e).cutShort hl.fuel
      · rw [call]
        exact (hnext.call held site f values).cutShort hl.fuel
      · rw [exec]
        exact (hnext.exec held scope s).cutShort hl.fuel
      · rw [turns]
        exact (hnext.turns held scope c body).cutShort hl.fuel

/-- A statement at the top level that is no expression, before those that follow. -/
theorem topLevelStmt_prolongs (hl : Loosens cut tight loose) (hfuel : fuel ≤ fuel') {last : Value}
    {rest : List (Stmt α)}
    (hrest : Prolongs cut (topLevel tight fuel last rest) (topLevel loose fuel' last rest))
    (s : Stmt α) : Prolongs cut
      (followed (exec tight fuel [last] Arena.global s) (topLevel tight fuel last rest)
        fun flow => fail flow.misplaced s.note)
      (followed (exec loose fuel' [last] Arena.global s) (topLevel loose fuel' last rest)
        fun flow => fail flow.misplaced s.note) := by
  refine ((prolonged hl hfuel).exec [last] Arena.global s).bind fun flow => ?_
  cases flow with
  | normal => exact hrest
  | breaking | continuing | returning _ => exact fail_prolongs _ s.note

/-- Top-level statements prolong themselves. -/
theorem topLevel_prolongs (hl : Loosens cut tight loose) (hfuel : fuel ≤ fuel') (last : Value)
    (statements : List (Stmt α)) :
    Prolongs cut (topLevel tight fuel last statements) (topLevel loose fuel' last statements) := by
  induction statements generalizing last with
  | nil =>
    rw [topLevel, topLevel]
    exact pure_prolongs
  | cons s rest ih =>
    cases s with
    | expr site e =>
      rw [topLevel, topLevel]
      exact ((prolonged hl hfuel).eval [last] Arena.global e).bind fun v => ih v
    | _ => exact topLevelStmt_prolongs hl hfuel (ih last) _

end Steps

end Eval

/-! ## Programs -/

/-- The outcome of a run that halts without a result. -/
def Halt.outcome : Halt α → Outcome α
  | .fault e => .fault e
  | .outOfFuel => .outOfFuel

/-- Whether a run ended at one of its limits. -/
def Outcome.isLimit : Outcome α → Bool
  | .fault ⟨.callDepthExceeded _, _⟩ | .fault ⟨.depthExceeded _, _⟩ => true
  | _ => false

namespace Machine

open Eval

variable {cut : Halt α → Prop} {tight loose : Settings} {fuel fuel' : Nat} {start : Machine α}
  {p : Program α}

/-- A run leaves behind what its statements do. -/
theorem left_topLevel (settings : Settings) (fuel : Nat) (p : Program α) (m : Machine α) :
    left (topLevel settings fuel .nil p.statements m) = (m.run settings fuel p).2 := by
  unfold run
  split <;> rename_i h <;> rw [h] <;> rfl

/-- A run under looser settings is the same run, or the one under the tighter settings was cut
    short. -/
theorem run_prolongs (hl : Loosens cut tight loose) (hfuel : fuel ≤ fuel') (start : Machine α)
    (p : Program α) : start.run loose fuel' p = start.run tight fuel p ∨
      ∃ e, cut e ∧ (start.run tight fuel p).1 = e.outcome ∧
        (start.run tight fuel p).2.Printed (start.run loose fuel' p).2 := by
  rcases (topLevel_prolongs hl hfuel .nil p.statements).continues start with
    hsame | ⟨e, m, hrun, he, hprinted⟩
  · left
    unfold run
    rw [hsame]
  · right
    rw [left_topLevel] at hprinted
    refine ⟨e, he, ?_⟩
    unfold run at hprinted ⊢
    rw [hrun]
    cases e with
    | fault e => exact ⟨rfl, hprinted⟩
    | outOfFuel => exact ⟨rfl, hprinted⟩

/-- A run comes to an end of its own, on some machine; the bound on steps is no such end. -/
def Finishes (start : Machine α) (settings : Settings) (p : Program α) (outcome : Outcome α)
    (m : Machine α) : Prop :=
  outcome ≠ .outOfFuel ∧ ∃ fuel, start.run settings fuel p = (outcome, m)

/-- **A larger bound on steps changes nothing** in a run that comes to an end. -/
theorem run_of_le {settings : Settings} {outcome : Outcome α} {m : Machine α}
    (hrun : start.run settings fuel p = (outcome, m)) (hend : outcome ≠ .outOfFuel)
    (hfuel : fuel ≤ fuel') : start.run settings fuel' p = (outcome, m) := by
  have hl : Loosens (α := α) (· = .outOfFuel) settings settings :=
    ⟨rfl, rfl, Nat.le_refl _, Nat.le_refl _, .inl rfl, .inl rfl⟩
  rcases run_prolongs hl hfuel start p with hsame | ⟨e, rfl, houtcome, -⟩
  · rw [hsame, hrun]
  · rw [hrun] at houtcome
    exact absurd houtcome hend

/-- A run comes to one end only. -/
theorem Finishes.unique {settings : Settings} {o o' : Outcome α} {m m' : Machine α}
    (h : start.Finishes settings p o m) (h' : start.Finishes settings p o' m') :
    o' = o ∧ m' = m := by
  obtain ⟨hend, fuel, hrun⟩ := h
  obtain ⟨hend', fuel', hrun'⟩ := h'
  have hmax := run_of_le hrun hend (Nat.le_max_left fuel fuel')
  rw [run_of_le hrun' hend' (Nat.le_max_right fuel fuel')] at hmax
  exact Prod.mk.inj hmax

/-- **Limits are monotone.**  Under looser limits a run that ends within the tighter ones comes to
    the same end, and to no other: with the same outcome on the same machine.  A run that ends at
    one of the tighter limits has printed what it prints under the looser ones, up to some point. -/
theorem finishes_of_le {l l' : Limits} (hcalls : l.calls ≤ l'.calls) (hdepth : l.depth ≤ l'.depth)
    (reclaim : Bool) (start : Machine α) (p : Program α) :
    (∀ o m, start.Finishes ⟨l, reclaim⟩ p o m → o.isLimit = false →
      start.Finishes ⟨l', reclaim⟩ p o m ∧
        ∀ o' m', start.Finishes ⟨l', reclaim⟩ p o' m' → o' = o ∧ m' = m) ∧
    (∀ o m, start.Finishes ⟨l, reclaim⟩ p o m → o.isLimit = true →
      ∀ o' m', start.Finishes ⟨l', reclaim⟩ p o' m' → m.output.toList <+: m'.output.toList) := by
  have hl : Loosens (α := α) (fun e => e = .outOfFuel ∨ e.outcome.isLimit = true) ⟨l, reclaim⟩
      ⟨l', reclaim⟩ :=
    ⟨.inl rfl, rfl, hcalls, hdepth, .inr fun _ => .inr rfl, .inr fun _ => .inr rfl⟩
  constructor
  · rintro o m ⟨hend, fuel, hrun⟩ hlimit
    have hsame : start.run ⟨l', reclaim⟩ fuel p = (o, m) := by
      -- without a limit the run was not cut short, so it is the same
      rcases run_prolongs hl (Nat.le_refl fuel) start p with hsame | ⟨e, he, houtcome, -⟩
      · rw [hsame, hrun]
      · rw [hrun] at houtcome
        obtain rfl : o = e.outcome := houtcome
        rcases he with rfl | he
        · exact absurd rfl hend
        · rw [he] at hlimit
          exact nomatch hlimit
    have hfinishes : start.Finishes ⟨l', reclaim⟩ p o m := ⟨hend, fuel, hsame⟩
    exact ⟨hfinishes, fun o' m' h' => hfinishes.unique h'⟩
  · rintro o m ⟨-, fuel, hrun⟩ - o' m' ⟨hend', fuel', hrun'⟩
    -- the same number of steps for both runs
    have hmax := run_of_le hrun' hend' (Nat.le_max_right fuel fuel')
    rcases run_prolongs hl (Nat.le_max_left fuel fuel') start p with hsame | ⟨e, -, -, hprinted⟩
    · rw [hmax, hrun] at hsame
      obtain ⟨-, rfl⟩ := Prod.mk.inj hsame
      exact List.prefix_rfl
    · -- the first run was cut short: it has printed up to some point
      rw [hmax, hrun] at hprinted
      exact hprinted

/-- Prints 0 and calls a function that prints 1. -/
def printTwice : Program Unit :=
  ⟨[.function () "f" [] [.print () [.literal () (.integer 1)]],
    .print () [.literal () (.integer 0)], .expr () (.call () (.name () "f") [])]⟩

/-- Without a call allowed, the first number is printed; with one call allowed also the second, and
    a hundred calls more change nothing. -/
theorem finishes_of_le_printTwice :
    ∃ o m o' m',
      (initial.Finishes ⟨{ calls := 0 }, true⟩ printTwice o m ∧ o.isLimit = true ∧
        m.output.toList = ["0"]) ∧
      (initial.Finishes ⟨{ calls := 1 }, true⟩ printTwice o' m' ∧ o'.isLimit = false ∧
        m'.output.toList = ["0", "1"]) ∧
      m.output.toList <+: m'.output.toList ∧
      initial.Finishes ⟨{ calls := 101 }, true⟩ printTwice o' m' := by
  have hfirst : initial.Finishes ⟨{ calls := 0 }, true⟩ printTwice
      (.fault ⟨.callDepthExceeded 0, ()⟩) (initial.run ⟨{ calls := 0 }, true⟩ 5 printTwice).2 :=
    ⟨nofun, 5, rfl⟩
  have hboth : initial.Finishes ⟨{ calls := 1 }, true⟩ printTwice (.value .nil)
      (initial.run ⟨{ calls := 1 }, true⟩ 5 printTwice).2 := ⟨nofun, 5, rfl⟩
  refine ⟨_, _, _, _, ⟨hfirst, rfl, by decide⟩, ⟨hboth, rfl, by decide⟩, ?_, ?_⟩
  · obtain ⟨-, hcut⟩ := @finishes_of_le Unit { calls := 0 } { calls := 1 } (by decide) (by decide)
      true initial printTwice
    exact hcut _ _ hfirst rfl _ _ hboth
  · exact ((finishes_of_le (by decide) (by decide) true initial printTwice).1 _ _ hboth rfl).1

end Machine

end Scriptlet
