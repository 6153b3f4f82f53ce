/-
  Watching a run: the states it passes, the jumps it makes, the parts that return and the scopes that
  end.

  1. **The watch** (`Watch`) — the machine of a run in progress, and what was written down so far:
     all states that it was in; the jumps made (a `break`, `continue` or `return` leaves where it
     stands, and a loop, a call or a program takes up what a body ends with); the points at which
     expressions and statements returned; and the ends of scopes.
  2. **The watched evaluator** (`Watched.eval`, …, `Watch.run`) — goes as the evaluator goes, clause
     for clause.  The machine of a watch changes in one way only, by `Watch.change`, and that writes
     the new state down; whatever answers without changing the machine is asked of the evaluator
     itself (`Watched.quiet`).
  3. **The crux** (`Watch.runAll_eq`) — watching changes nothing: programs end the same, and on the
     same machine.
-/
import Scriptlet.Proofs.Eval.Simulation

namespace Scriptlet

variable {α β γ : Type}

/-! ## What is watched -/

/-- A body that is running: that of a program, of a function called, or of a loop. -/
inductive Frame (α : Type) where
  | program (body : List (Stmt α))
  | call (body : List (Stmt α))
  | loop (body : List (Stmt α))

/-- The statements of the body. -/
def Frame.body : Frame α → List (Stmt α)
  | program body | call body | loop body => body

/-- One end of a jump, with the bodies running at that moment, innermost first. -/
inductive Jump (α : Type) where
  /-- A `break`, `continue` or `return` leaves where it stands. -/
  | leave (frames : List (Frame α)) (s : Stmt α)
  /-- The innermost body ended with a flow that is no further passed on. -/
  | land (frames : List (Frame α)) (flow : Flow)

/-- A moment at which an expression or a statement returns. -/
structure Point (α : Type) where
  machine : Machine α
  /-- Values that the evaluation in progress needs, with those that are being returned. -/
  held : List Value
  /-- The scope in which the expression or statement was evaluated. -/
  scope : ScopeId
  /-- Why there is no result, if there is none. -/
  halt : Option (Halt α)

/-- A moment at which a body has been run, with a result or without one, and its scope is to end. -/
structure ScopeEnd (α : Type) where
  machine : Machine α
  /-- Values that the evaluation in progress needs, with those that the body returns. -/
  held : List Value
  scope : ScopeId

/-- A run in progress, with what was written down so far, the latest first. -/
structure Watch (α : Type) where
  machine : Machine α
  /-- States of the machine. -/
  passed : List (Machine α)
  jumps : List (Jump α)
  /-- Points at which expressions, statements and programs returned. -/
  points : List (Point α)
  /-- Ends of scopes. -/
  ends : List (ScopeEnd α)

namespace Watch

/-- The beginning of a run. -/
def start (m : Machine α) : Watch α := ⟨m, [m], [], [], []⟩

/-- The machine changes. -/
def change (f : Machine α → Machine α) (w : Watch α) : Watch α :=
  { w with machine := f w.machine, passed := f w.machine :: w.passed }

/-- A jump is made. -/
def note (j : Jump α) (w : Watch α) : Watch α := { w with jumps := j :: w.jumps }

/-- A part returns that was evaluated in `scope`. -/
def point (held : List Value) (scope : ScopeId) (halt : Option (Halt α)) (w : Watch α) : Watch α :=
  { w with points := ⟨w.machine, held, scope, halt⟩ :: w.points }

/-- A scope ends. -/
def close (settings : Settings) (held : List Value) (scope : ScopeId) (w : Watch α) : Watch α :=
  { w with ends := ⟨w.machine, held, scope⟩ :: w.ends }.change (·.endScope settings held scope)

end Watch

/-- Why a computation gave no result, if it did not. -/
def halted {ε σ : Type} : EStateM.Result ε σ β → Option ε
  | .ok _ _ => none
  | .error e _ => some e

/-- A computation that is watched. -/
abbrev Watched (α β : Type) := EStateM (Halt α) (Watch α) β

namespace Watched

open Eval (arguments texts followed sequence optional operation)

/-! ## Steps -/

/-- The machine at hand. -/
def machine : Watched α (Machine α) := fun w => .ok w.machine w

/-- Changes the machine. -/
def change (f : Machine α → Machine α) : Watched α PUnit := modify (Watch.change f)

/-- Notes a jump. -/
def note (j : Jump α) : Watched α PUnit := modify (Watch.note j)

/-- The answer of a computation, whose changes to the machine, if any, are not made. -/
def quiet (p : Eval α β) : Watched α β := fun w =>
  match p w.machine with
  | .ok b _ => .ok b w
  | .error e _ => .error e w

/-- Runs `p` between two changes, the second of which is made on every way out. -/
def between (before after : Machine α → Machine α) (p : Watched α β) : Watched α β := do
  change before
  always (Watch.change after) p

/-- Runs `p` one level deeper. -/
def descend (settings : Settings) (site : α) (p : Watched α β) : Watched α β := do
  if (← machine).depth < settings.limits.depth then
    between (fun m => { m with depth := m.depth + 1 }) (fun m => { m with depth := m.depth - 1 }) p
  else quiet (Eval.fail (.depthExceeded settings.limits.depth) site)

/-- Runs `p` inside one more call. -/
def inCall (p : Watched α β) : Watched α β :=
  between (fun m => { m with calls := m.calls + 1 }) (fun m => { m with calls := m.calls - 1 }) p

/-- Runs `p` in a new scope inside `parent` and ends the scope on every way out. -/
def inScope (settings : Settings) (held : List Value) (parent : ScopeId)
    (needed : β → List Value) (p : ScopeId → Watched α β) : Watched α β := fun w =>
  match p (w.machine.arena.nextSlot parent) (w.change (·.opening parent)) with
  | .ok b w' => .ok b (w'.close settings (needed b ++ held) (w.machine.arena.nextSlot parent))
  | .error e w' => .error e (w'.close settings held (w.machine.arena.nextSlot parent))

/-- Runs `p` in `scope` and notes the point at which it returns. -/
def returning (needed : β → List Value) (held : List Value) (scope : ScopeId)
    (p : Watched α β) : Watched α β := fun w =>
  match p w with
  | .ok b w' => .ok b (w'.point (needed b ++ held) scope none)
  | .error e w' => .error e (w'.point held scope (some e))

/-- Asking for the machine changes nothing. -/
theorem machine_bind (f : Machine α → Watched α β) (w : Watch α) :
    (machine >>= f) w = f w.machine w := rfl

theorem left_quiet (p : Eval α β) (w : Watch α) : left (quiet p w) = w := by
  unfold quiet
  cases p w.machine <;> rfl

/-- The tidy-up is made whether or not there was a result. -/
theorem left_always (p : Watched α β) (tidy : Watch α → Watch α) (w : Watch α) :
    left (always tidy p w) = tidy (left (p w)) := by
  unfold always
  cases p w <;> rfl

/-- A tidy-up changes nothing about why there is no result. -/
theorem halted_always (p : Watched α β) (tidy : Watch α → Watch α) (w : Watch α) :
    halted (always tidy p w) = halted (p w) := by
  unfold always
  cases p w <;> rfl

/-- However the computation ends, its scope is ended then. -/
theorem left_inScope (settings : Settings) (held : List Value) (parent : ScopeId)
    (needed : β → List Value) (p : ScopeId → Watched α β) (w : Watch α) :
    ∃ values, left (inScope settings held parent needed p w) =
      (left (p (w.machine.arena.nextSlot parent) (w.change (·.opening parent)))).close settings
        values (w.machine.arena.nextSlot parent) := by
  unfold inScope
  cases p (w.machine.arena.nextSlot parent) (w.change (·.opening parent)) with
  | ok b w' => exact ⟨needed b ++ held, rfl⟩
  | error e w' => exact ⟨held, rfl⟩

/-- Nor does the end of a scope. -/
theorem halted_inScope (settings : Settings) (held : List Value) (parent : ScopeId)
    (needed : β → List Value) (p : ScopeId → Watched α β) (w : Watch α) :
    halted (inScope settings held parent needed p w) =
      halted (p (w.machine.arena.nextSlot parent) (w.change (·.opening parent))) := by
  unfold inScope
  cases p (w.machine.arena.nextSlot parent) (w.change (·.opening parent)) <;> rfl

/-- A value that is returned is needed itself. -/
def alone (v : Value) : List Value := [v]

/-- Notes what the innermost body ended with, unless it ended normally. -/
def land (frames : List (Frame α)) : Flow → Watched α PUnit
  | .normal => pure ⟨⟩
  | flow => note (.land frames flow)

/-! ## Expressions and statements -/

mutual

/-- The value of an expression, while the bodies `frames` are running. -/
def eval (settings : Settings) :
    Nat → List Value → ScopeId → List (Frame α) → Expr α → Watched α Value
  | 0, _, _, _, _ => throw .outOfFuel
  | fuel + 1, held, scope, frames, e =>
    returning alone held scope <| descend settings e.note <|
      match e with
      | .literal _ v => pure v.value
      | .name site x => quiet (Eval.lookUp site scope x)
      | .unary site op e => do
        let v ← eval settings fuel held scope frames e
        quiet (Eval.lift site (op.apply v))
      | .operation site op left right =>
        operation (fun held e => eval settings fuel held scope frames e)
          (fun op l r => quiet (Eval.lift site (op.apply l r))) held op left right
      | .assign _ x e => do
        let v ← eval settings fuel held scope frames e
        change fun m => m.assign scope x v
        return v
      | .call site callee args => do
        let f ← eval settings fuel held scope frames callee
        let values ←
          arguments (fun held e => eval settings fuel held scope frames e) (f :: held) args
        call settings fuel held frames site f values

/-- The value of a call; what its body ends with lands here. -/
def call (settings : Settings) :
    Nat → List Value → List (Frame α) → α → Value → List Value → Watched α Value
  | 0, _, _, _, _, _ => throw .outOfFuel
  | fuel + 1, held, frames, site, callee, values =>
    match callee with
    | .builtin b => quiet (Eval.callBuiltin site b values)
    | .function id name => do
      let m ← machine
      match m.closure? id with
      | none => quiet (Eval.fail (.notCallable .function) site)
      | some c =>
        if c.params.length ≠ values.length then
          quiet (Eval.fail (.arity name c.params.length values.length) site)
        else if settings.limits.calls ≤ m.calls then
          quiet (Eval.fail (.callDepthExceeded settings.limits.calls) site)
        else
          let flow ← inScope settings (callee :: held) c.scope Flow.values fun scope => do
            change (Eval.bindParams scope c.params values)
            inCall
              (sequence (exec settings fuel (callee :: held) scope (.call c.body :: frames)) c.body)
          land (.call c.body :: frames) flow
          quiet (Eval.result site flow)
    | other => quiet (Eval.fail (.notCallable other.type) site)

/-- Runs a statement, while the bodies `frames` are running; a jump leaves from here. -/
def exec (settings : Settings) :
    Nat → List Value → ScopeId → List (Frame α) → Stmt α → Watched α Flow
  | 0, _, _, _, _ => throw .outOfFuel
  | fuel + 1, held, scope, frames, s =>
    returning Flow.values held scope <| descend settings s.note <|
      match s with
      | .expr _ e => do
        let _ ← eval settings fuel held scope frames e
        return .normal
      | .declare _ x e => do
        let v ← optional (eval settings fuel held scope frames) e
        change fun m => m.declare scope x v
        return .normal
      | .print _ args => do
        let parts ← texts (eval settings fuel held scope frames) args
        change fun m => m.printSegment (" ".intercalate parts)
        return .normal
      | .block _ body =>
        inScope settings held scope Flow.values fun inner =>
          sequence (exec settings fuel held inner frames) body
      | .cond _ condition consequent alternative => do
        let c ← eval settings fuel held scope frames condition
        if c.isTruthy then
          inScope settings held scope Flow.values fun inner =>
            sequence (exec settings fuel held inner frames) consequent
        else
          match alternative with
          | none => return .normal
          | some branch => exec settings fuel held scope frames branch
      | .loop _ condition body => turns settings fuel held scope frames condition body
      | .function _ f params body => do
        change fun m =>
          (m.define ⟨params, body, scope⟩).2.declare scope f
            (.function (m.define ⟨params, body, scope⟩).1 f)
        return .normal
      | .ret a e => do
        let v ← optional (eval settings fuel held scope frames) e
        note (.leave frames (.ret a e))
        return .returning v
      | .breakLoop a => do
        note (.leave frames (.breakLoop a))
        return .breaking
      | .continueLoop a => do
        note (.leave frames (.continueLoop a))
        return .continuing

/-- The turns of a loop; `break` and `continue` land here. -/
def turns (settings : Settings) :
    Nat → List Value → ScopeId → List (Frame α) → Expr α → List (Stmt α) → Watched α Flow
  | 0, _, _, _, _, _ => throw .outOfFuel
  | fuel + 1, held, scope, frames, condition, body => do
    let c ← eval settings fuel held scope frames condition
    if c.isTruthy then
      let flow ← inScope settings held scope Flow.values fun inner =>
        sequence (exec settings fuel held inner (.loop body :: frames)) body
      match flow with
      | .breaking => do
        land (.loop body :: frames) .breaking
        return .normal
      | .returning v => return .returning v
      | flow => do
        land (.loop body :: frames) flow
        turns settings fuel held scope frames condition body
    else return .normal

end

/-! ## Programs -/

/-- Top-level statements; what does not end normally lands in the program. -/
def topLevel (settings : Settings) (fuel : Nat) (frames : List (Frame α)) :
    Value → List (Stmt α) → Watched α Value
  | last, [] => pure last
  | last, .expr _ e :: rest => do
    let v ← eval settings fuel [last] Arena.global frames e
    topLevel settings fuel frames v rest
  | last, s :: rest =>
    followed (exec settings fuel [last] Arena.global frames s)
      (topLevel settings fuel frames last rest) fun flow => do
        land frames flow
        quiet (Eval.fail flow.misplaced s.note)

end Watched

/-- A program under watch; the last point is its end. -/
def Watched.program (settings : Settings) (fuel : Nat) (p : Program α) : Watched α Value :=
  returning alone [] Arena.global <|
    topLevel settings fuel [.program p.statements] .nil p.statements

/-- Runs a program under watch. -/
def Watch.run (settings : Settings) (fuel : Nat) (p : Program α) (w : Watch α) :
    Outcome α × Watch α :=
  match Watched.program settings fuel p w with
  | .ok v w => (.value v, w)
  | .error (.fault e) w => (.fault e, w)
  | .error .outOfFuel w => (.outOfFuel, w)

/-- Runs programs one after the other under watch, each with a bound on its steps, also after
    faults. -/
def Watch.runAll (settings : Settings) : List (Nat × Program α) → Watch α →
    List (Outcome α) × Watch α
  | [], w => ([], w)
  | (fuel, p) :: rest, w =>
    let (outcome, w) := w.run settings fuel p
    let (outcomes, w) := w.runAll settings rest
    (outcome :: outcomes, w)

namespace Watched

open Eval (arguments texts followed sequence optional operation)

/-! ## Watching changes nothing: rules -/

/-- How a computation ends, without what was written down. -/
def seen : EStateM.Result (Halt α) (Watch α) β → EStateM.Result (Halt α) (Machine α) β
  | .ok b w => .ok b w.machine
  | .error e w => .error e w.machine

/-- Watched as `q`, the computation `p` ends as it does alone. -/
def Shows (q : Watched α β) (p : Eval α β) : Prop := ∀ w, seen (q w) = p w.machine

/-- What is left behind holds the machine that the computation alone would leave. -/
theorem Shows.left {q : Watched α β} {p : Eval α β} (h : Shows q p) (w : Watch α) :
    Scriptlet.left (p w.machine) = (Scriptlet.left (q w)).machine := by
  rw [← h w]
  cases q w <;> rfl

/-- The computation leaves the machine as it is. -/
def Still (p : Eval α β) : Prop := ∀ m, (∃ b, p m = .ok b m) ∨ ∃ e, p m = .error e m

theorem pure_still (b : β) : Still (pure b : Eval α β) := fun _ => .inl ⟨b, rfl⟩

theorem fail_still (cause : RuntimeFault) (site : α) : Still (Eval.fail cause site : Eval α β) :=
  fun _ => .inr ⟨_, rfl⟩

/-- Operators work on values, not on the machine. -/
theorem lift_still (site : α) (r : Except RuntimeFault β) : Still (Eval.lift site r) := by
  cases r with
  | ok b => exact pure_still b
  | error cause => exact fail_still cause site

/-- Looking a name up changes nothing. -/
theorem lookUp_still (site : α) (scope : ScopeId) (x : String) :
    Still (Eval.lookUp site scope x) := by
  intro m
  rw [Eval.lookUp, Eval.get_bind]
  cases m.arena.get? scope x with
  | some v => exact pure_still v m
  | none => exact fail_still _ site m

/-- Built-in functions change nothing. -/
theorem callBuiltin_still (site : α) (b : Builtin) (values : List Value) :
    Still (Eval.callBuiltin site b values) := by
  match values with
  | [v] => exact lift_still site (b.apply v)
  | [] | _ :: _ :: _ => exact fail_still _ site

/-- What a call gives is decided by the flow of its body. -/
theorem result_still (site : α) (flow : Flow) : Still (Eval.result site flow) := by
  cases flow with
  | normal => exact pure_still _
  | returning v => exact pure_still v
  | breaking | continuing => exact fail_still _ site

/-- The computation does not stop at a fault of this kind. -/
def Avoids (bad : Halt α → Bool) (p : Eval α β) : Prop :=
  ∀ m e m', p m = .error e m' → bad e = false

section Avoidance

variable {bad : Halt α → Bool} {site : α}

theorem pure_avoids (b : β) : Avoids bad (pure b : Eval α β) := fun _ _ _ h => nomatch h

/-- A fault of another kind. -/
theorem fail_avoids {cause : RuntimeFault} (h : bad (.fault ⟨cause, site⟩) = false) :
    Avoids bad (Eval.fail cause site : Eval α β) := by
  intro m e m' heq
  cases heq
  exact h

/-- An operator that blames something else. -/
theorem lift_avoids {r : Except RuntimeFault β}
    (h : ∀ cause, r = .error cause → bad (.fault ⟨cause, site⟩) = false) :
    Avoids bad (Eval.lift site r) := by
  cases r with
  | ok b => exact pure_avoids b
  | error cause => exact fail_avoids (h cause rfl)

/-- A look-up fails for one reason only. -/
theorem lookUp_avoids {scope : ScopeId} {x : String}
    (h : bad (.fault ⟨.undefinedName x, site⟩) = false) :
    Avoids bad (Eval.lookUp site scope x) := by
  intro m e m' herror
  rw [Eval.lookUp, Eval.get_bind] at herror
  cases hv : m.arena.get? scope x with
  | some v =>
    rw [hv] at herror
    cases herror
  | none =>
    rw [hv] at herror
    exact fail_avoids h m e m' herror

/-- A built-in function blames its operands, or the number of arguments. -/
theorem callBuiltin_avoids {b : Builtin} {values : List Value}
    (h : ∀ cause, cause.blamesOperands = true → bad (.fault ⟨cause, site⟩) = false)
    (harity : ∀ name n k, bad (.fault ⟨.arity name n k, site⟩) = false) :
    Avoids bad (Eval.callBuiltin site b values) := by
  match values with
  | [v] => exact lift_avoids fun cause herror => h cause (Builtin.blames_operands herror)
  | [] | _ :: _ :: _ => exact fail_avoids (harity ..)

end Avoidance

section Rules

variable {p : Eval α β} {q : Watched α β} {f : β → Eval α γ} {g : β → Watched α γ}

theorem pure_shows {b : β} : Shows (pure b : Watched α β) (pure b) := fun _ => rfl

theorem throw_shows (e : Halt α) : Shows (throw e : Watched α β) (throw e) := fun _ => rfl

/-- What leaves the machine as it is may be asked without making its changes. -/
theorem Still.shows (h : Still p) : Shows (quiet p) p := by
  intro w
  unfold quiet
  rcases h w.machine with ⟨b, hb⟩ | ⟨e, he⟩
  · rw [hb]
    rfl
  · rw [he]
    rfl

theorem machine_shows : Shows (machine : Watched α (Machine α)) get := fun _ => rfl

/-- The machine of a watch changes as the machine does. -/
theorem change_shows (f : Machine α → Machine α) : Shows (change f) (modify f) := fun _ => rfl

/-- One part after another: the second starts on the machine the first has left. -/
theorem Shows.bind (h : Shows q p) (hnext : ∀ b, Shows (g b) (f b)) :
    Shows (q >>= g) (p >>= f) := by
  intro w
  have hw := h w
  show seen (EStateM.bind q g w) = EStateM.bind p f w.machine
  unfold EStateM.bind
  cases hq : q w with
  | ok b w' =>
    rw [hq] at hw
    rw [← hw]
    -- the machine that the first part leaves is the same, so the second part starts alike
    exact hnext b w'
  | error e w' =>
    rw [hq] at hw
    rw [← hw]
    rfl

/-- Notes are not seen. -/
theorem Shows.noted (h : Shows q p) (j : Jump α) : Shows (do note j; q) p := fun w => h (w.note j)

/-- Landings are notes too, or nothing. -/
theorem Shows.landed (h : Shows q p) (frames : List (Frame α)) (flow : Flow) :
    Shows (do land frames flow; q) p := by
  cases flow with
  | normal => exact h
  | breaking | continuing | returning v => exact h.noted _

/-- Two changes, the second on every way out. -/
theorem Shows.between (h : Shows q p) (before after : Machine α → Machine α) :
    Shows (between before after q) (do modify before; always after p) := by
  refine (change_shows before).bind fun _ w => ?_
  have hw := h w
  unfold always
  cases hq : q w with
  | ok b w' =>
    rw [hq] at hw
    rw [← hw]
    rfl
  | error e w' =>
    rw [hq] at hw
    rw [← hw]
    rfl

/-- The limit on depth is read off the machine watched. -/
theorem Shows.descend (h : Shows q p) (settings : Settings) (site : α) :
    Shows (descend settings site q) (Eval.descend settings site p) := by
  refine machine_shows.bind fun m => ?_
  split
  · exact h.between _ _
  · exact (fail_still _ site).shows

theorem Shows.inCall (h : Shows q p) : Shows (inCall q) (Eval.inCall p) := h.between _ _

/-- Points are not seen. -/
theorem Shows.returning (h : Shows q p) (needed : β → List Value) (held : List Value)
    (scope : ScopeId) : Shows (returning needed held scope q) p := by
  intro w
  rw [← h w]
  unfold Watched.returning
  cases q w <;> rfl

/-- The scope takes the same slot, and ends with the same values held. -/
theorem Shows.inScope {p : ScopeId → Eval α β} {q : ScopeId → Watched α β}
    (h : ∀ i, Shows (q i) (p i)) (settings : Settings) (held : List Value) (parent : ScopeId)
    (needed : β → List Value) :
    Shows (inScope settings held parent needed q) (Eval.inScope settings held parent needed p) := by
  intro w
  have hbody := h (w.machine.arena.nextSlot parent) (w.change (·.opening parent))
  rw [Eval.inScope_eq]
  unfold Watched.inScope
  -- the body starts in the same slot, which ends on both ways out
  cases hq : q (w.machine.arena.nextSlot parent) (w.change (·.opening parent)) with
  | ok b w' =>
    rw [hq] at hbody
    have hbody : .ok b w'.machine =
      p (w.machine.arena.nextSlot parent) (w.machine.opening parent) := hbody
    rw [← hbody]
    rfl
  | error e w' =>
    rw [hq] at hbody
    have hbody : .error e w'.machine =
      p (w.machine.arena.nextSlot parent) (w.machine.opening parent) := hbody
    rw [← hbody]
    rfl

end Rules

/-! ## Watching changes nothing: lists -/

/-- Argument by argument. -/
theorem arguments_show {eval : List Value → Expr α → Watched α Value}
    {eval' : List Value → Expr α → Eval α Value} (h : ∀ held e, Shows (eval held e) (eval' held e))
    (es : List (Expr α)) (held : List Value) :
    Shows (arguments eval held es) (arguments eval' held es) := by
  induction es generalizing held with
  | nil => exact pure_shows
  | cons e rest ih => exact (h held e).bind fun v => (ih (v :: held)).bind fun _ => pure_shows

theorem texts_show {eval : Expr α → Watched α Value} {eval' : Expr α → Eval α Value}
    (h : ∀ e, Shows (eval e) (eval' e)) (es : List (Expr α)) :
    Shows (texts eval es) (texts eval' es) := by
  induction es with
  | nil => exact pure_shows
  | cons e rest ih => exact (h e).bind fun v => ih.bind fun _ => pure_shows

/-- Statement by statement, up to the first that does not end normally. -/
theorem sequence_shows {exec : Stmt α → Watched α Flow} {exec' : Stmt α → Eval α Flow}
    (h : ∀ s, Shows (exec s) (exec' s)) (body : List (Stmt α)) :
    Shows (sequence exec body) (sequence exec' body) := by
  induction body with
  | nil => exact pure_shows
  | cons s rest ih =>
    refine (h s).bind fun flow => ?_
    cases flow with
    | normal => exact ih
    | breaking | continuing | returning v => exact pure_shows

theorem optional_shows {eval : Expr α → Watched α Value} {eval' : Expr α → Eval α Value}
    (h : ∀ e, Shows (eval e) (eval' e)) (e : Option (Expr α)) :
    Shows (optional eval e) (optional eval' e) := by
  cases e with
  | none => exact pure_shows
  | some e => exact h e

/-! ## Watching changes nothing: expressions, calls and statements -/

/-- Everything ends under watch as it does alone, under a bound on steps. -/
structure Shown (α : Type) (settings : Settings) (fuel : Nat) : Prop where
  eval : ∀ held scope frames (e : Expr α),
    Shows (eval settings fuel held scope frames e) (Eval.eval settings fuel held scope e)
  call : ∀ held frames (site : α) f values,
    Shows (call settings fuel held frames site f values)
      (Eval.call settings fuel held site f values)
  exec : ∀ held scope frames (s : Stmt α),
    Shows (exec settings fuel held scope frames s) (Eval.exec settings fuel held scope s)
  turns : ∀ held scope frames (c : Expr α) body,
    Shows (turns settings fuel held scope frames c body)
      (Eval.turns settings fuel held scope c body)

section Parts

variable {settings : Settings} {fuel : Nat}

/-- An expression ends under watch as it does alone, one case for each kind of node. -/
theorem eval_shows (ih : Shown α settings fuel) (held : List Value) (scope : ScopeId)
    (frames : List (Frame α)) (e : Expr α) :
    Shows (eval settings (fuel + 1) held scope frames e)
      (Eval.eval settings (fuel + 1) held scope e) := by
  rw [eval.eq_def, Eval.eval.eq_def]
  refine Shows.returning (Shows.descend ?_ settings e.note) alone held scope
  cases e with
  | literal _ v => exact pure_shows
  | name site x => exact (lookUp_still site scope x).shows
  | unary site op e =>
    exact (ih.eval held scope frames e).bind fun v => (lift_still site (op.apply v)).shows
  | operation site op left right =>
    refine (ih.eval held scope frames left).bind fun l => ?_
    have hright := ih.eval (l :: held) scope frames right
    -- the left operand may decide: then the right one is not evaluated
    cases op with
    | logical op =>
      dsimp only
      split
      · exact pure_shows
      · exact hright
    | binary op => exact hright.bind fun r => (lift_still site (op.apply l r)).shows
  | assign _ x e =>
    exact (ih.eval held scope frames e).bind fun v => (change_shows _).bind fun _ => pure_shows
  | call site callee args =>
    refine (ih.eval held scope frames callee).bind fun f => ?_
    -- the callee is held while the arguments are evaluated
    have hargs := arguments_show (fun held e => ih.eval held scope frames e) args (f :: held)
    exact hargs.bind fun values => ih.call held frames site f values

/-- The scope of a call, with its parameters bound. -/
theorem activation_shows (ih : Shown α settings fuel) (held : List Value)
    (frames : List (Frame α)) (c : Closure α) (values : List Value) :
    Shows
      (inScope settings held c.scope Flow.values fun scope => do
        change (Eval.bindParams scope c.params values)
        inCall (sequence (exec settings fuel held scope frames) c.body))
      (Eval.inScope settings held c.scope Flow.values fun scope => do
        modify (Eval.bindParams scope c.params values)
        Eval.inCall (sequence (Eval.exec settings fuel held scope) c.body)) := by
  refine Shows.inScope (fun scope => (change_shows _).bind fun _ => ?_) settings held c.scope _
  exact (sequence_shows (ih.exec held scope frames) c.body).inCall

/-- A call ends under watch as it does alone; what its body ends with is noted on the way. -/
theorem call_shows (ih : Shown α settings fuel) (held : List Value) (frames : List (Frame α))
    (site : α) (f : Value) (values : List Value) :
    Shows (call settings (fuel + 1) held frames site f values)
      (Eval.call settings (fuel + 1) held site f values) := by
  rw [call.eq_def, Eval.call.eq_def]
  cases f with
  | builtin b => exact (callBuiltin_still site b values).shows
  | nil | bool _ | integer _ | float _ | str _ => exact (fail_still _ site).shows
  | function id name =>
    refine machine_shows.bind fun m => ?_
    cases m.closure? id with
    -- a closure that is gone fails alike
    | none => exact (fail_still _ site).shows
    | some c =>
      dsimp only
      split
      · -- another number of arguments, or too many calls: no body runs
        exact (fail_still _ site).shows
      · split
        · exact (fail_still _ site).shows
        · -- the frame of the call is known to the watch alone
          exact (activation_shows ih (.function id name :: held) (.call c.body :: frames) c
            values).bind fun flow => (result_still site flow).shows.landed _ flow

/-- A body in a scope of its own. -/
theorem block_shows (ih : Shown α settings fuel) (held : List Value) (scope : ScopeId)
    (frames : List (Frame α)) (body : List (Stmt α)) :
    Shows
      (inScope settings held scope Flow.values fun inner =>
        sequence (exec settings fuel held inner frames) body)
      (Eval.inScope settings held scope Flow.values fun inner =>
        sequence (Eval.exec settings fuel held inner) body) :=
  Shows.inScope (fun inner => sequence_shows (ih.exec held inner frames) body) settings held scope _

/-- A statement ends under watch as it does alone; a jump is noted where it leaves. -/
theorem exec_shows (ih : Shown α settings fuel) (held : List Value) (scope : ScopeId)
    (frames : List (Frame α)) (s : Stmt α) :
    Shows (exec settings (fuel + 1) held scope frames s)
      (Eval.exec settings (fuel + 1) held scope s) := by
  have heval := ih.eval held scope frames
  rw [exec.eq_def, Eval.exec.eq_def]
  refine Shows.returning (Shows.descend ?_ settings s.note) Flow.values held scope
  cases s with
  | expr _ e => exact (heval e).bind fun _ => pure_shows
  | declare _ x e =>
    exact (optional_shows heval e).bind fun v => (change_shows _).bind fun _ => pure_shows
  | print _ args =>
    exact (texts_show heval args).bind fun parts => (change_shows _).bind fun _ => pure_shows
  | block _ body => exact block_shows ih held scope frames body
  | cond _ condition consequent alternative =>
    refine (heval condition).bind fun c => ?_
    -- the condition is judged on the same value
    split
    · exact block_shows ih held scope frames consequent
    · cases alternative with
      | none => exact pure_shows
      | some branch => exact ih.exec held scope frames branch
  | loop _ condition body => exact ih.turns held scope frames condition body
  | function _ f params body => exact (change_shows _).bind fun _ => pure_shows
  | ret a e => exact (optional_shows heval e).bind fun v => pure_shows.noted _
  | breakLoop a | continueLoop a => exact pure_shows.noted _

/-- A loop ends under watch as it does alone; `break` and `continue` are noted as they land. -/
theorem turns_shows (ih : Shown α settings fuel) (held : List Value) (scope : ScopeId)
    (frames : List (Frame α)) (c : Expr α) (body : List (Stmt α)) :
    Shows (turns settings (fuel + 1) held scope frames c body)
      (Eval.turns settings (fuel + 1) held scope c body) := by
  rw [turns, Eval.turns]
  refine (ih.eval held scope frames c).bind fun v => ?_
  split
  · refine (block_shows ih held scope (.loop body :: frames) body).bind fun flow => ?_
    cases flow with
    | normal | continuing => exact (ih.turns held scope frames c body).landed _ _
    | breaking => exact pure_shows.landed _ _
    | returning v => exact pure_shows
  · exact pure_shows

/-- **Everything ends under watch as it does alone**, by induction on the bound on steps. -/
theorem shown (α : Type) (settings : Settings) (fuel : Nat) : Shown α settings fuel := by
  induction fuel with
  | zero =>
    refine ⟨fun held scope frames e => ?_, fun held frames site f values => ?_,
      fun held scope frames s => ?_, fun held scope frames c body => ?_⟩
    · rw [eval, Eval.eval]
      exact throw_shows _
    · rw [call, Eval.call]
      exact throw_shows _
    · rw [exec, Eval.exec]
      exact throw_shows _
    · rw [turns, Eval.turns]
      exact throw_shows _
  | succ fuel ih => exact ⟨eval_shows ih, call_shows ih, exec_shows ih, turns_shows ih⟩

/-- A statement at the top level that is no expression, before those that follow. -/
theorem topLevelStmt_shows {frames : List (Frame α)} {last : Value} {rest : List (Stmt α)}
    (hrest : Shows (topLevel settings fuel frames last rest)
      (Eval.topLevel settings fuel last rest))
    (s : Stmt α) : Shows
      (followed (exec settings fuel [last] Arena.global frames s)
        (topLevel settings fuel frames last rest) fun flow => do
          land frames flow
          quiet (Eval.fail flow.misplaced s.note))
      (followed (Eval.exec settings fuel [last] Arena.global s)
        (Eval.topLevel settings fuel last rest) fun flow => Eval.fail flow.misplaced s.note) := by
  refine ((shown α settings fuel).exec [last] Arena.global frames s).bind fun flow => ?_
  cases flow with
  | normal => exact hrest
  | breaking | continuing | returning _ => exact (fail_still _ s.note).shows.landed _ _

/-- Top-level statements end under watch as they do alone. -/
theorem topLevel_shows (frames : List (Frame α)) (last : Value) (statements : List (Stmt α)) :
    Shows (topLevel settings fuel frames last statements)
      (Eval.topLevel settings fuel last statements) := by
  induction statements generalizing last with
  | nil =>
    rw [topLevel, Eval.topLevel]
    exact pure_shows
  | cons s rest ih =>
    cases s with
    | expr site e =>
      rw [topLevel, Eval.topLevel]
      exact ((shown α settings fuel).eval [last] Arena.global frames e).bind fun v => ih v
    | _ => exact topLevelStmt_shows (ih last) _

/-- The end of a program is a point, which is not seen. -/
theorem program_shows (p : Program α) :
    Shows (program settings fuel p) (Eval.topLevel settings fuel .nil p.statements) :=
  (topLevel_shows [.program p.statements] .nil p.statements).returning alone [] Arena.global

end Parts

end Watched

namespace Watch

/-- A run leaves behind what its program does. -/
theorem left_run (settings : Settings) (fuel : Nat) (p : Program α) (w : Watch α) :
    (w.run settings fuel p).2 = left (Watched.program settings fuel p w) := by
  unfold run
  split <;> rename_i h <;> rw [h] <;> rfl

/-- **One program** ends the same under watch, and on the same machine. -/
theorem run_eq (settings : Settings) (fuel : Nat) (p : Program α) (w : Watch α) :
    ((w.run settings fuel p).1, (w.run settings fuel p).2.machine)
      = w.machine.run settings fuel p := by
  have hshows : Watched.seen (Watched.program settings fuel p w)
      = Eval.topLevel settings fuel .nil p.statements w.machine := Watched.program_shows p w
  unfold run Machine.run
  rw [← hshows]
  split <;> rename_i h <;> rw [h] <;> rfl

/-- **Watching changes nothing**: programs end the same, and on the same machine. -/
theorem runAll_eq (settings : Settings) (steps : List (Nat × Program α)) (w : Watch α) :
    ((w.runAll settings steps).1, (w.runAll settings steps).2.machine)
      = w.machine.runAll settings steps := by
  induction steps generalizing w with
  | nil => rfl
  | cons step rest ih =>
    obtain ⟨fuel, p⟩ := step
    have hrest := ih (w.run settings fuel p).2
    rw [Machine.runAll_cons, ← run_eq settings fuel p w]
    dsimp only
    rw [← hrest]
    rfl

-- A loop that is left at once: three statements and expressions are entered, and the jump lands.
example :
    let program : Program Unit := ⟨[.loop () (.literal () (.bool true)) [.breakLoop ()]]⟩
    let w := ((start .initial).runAll {} [(3, program)]).2
    w.passed.reverse.map Machine.depth = [0, 1, 2, 1, 1, 2, 1, 1, 0] ∧ w.jumps.length = 2 := by
  decide

end Watch

end Scriptlet
