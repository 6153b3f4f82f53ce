/-
  Erasure: a run never looks at the notes of a program.

  1. **Shapes of machines** — the only notes in a machine are those in the bodies of its closures;
     `Machine.shape` erases them, as `Outcome.shape` erases the note that a fault is reported with.
  2. **Rules** (`Eval.Erases`) — one for each way to put computations together: started on the
     shape of a machine, the second computation ends as the first does, in shape.
  3. **The crux (`erased`)** — by induction on the bound on steps, the shape of an expression, call,
     statement or loop does what the original does, in shape.  Spans and token ranges thus decide
     nothing: no lookup, no depth, no collection.
  4. **The result (`finishes_format`)** — a program and what its format is read back as have one
     shape, so they run alike.
-/
import Scriptlet.Proofs.Eval.Limits
import Scriptlet.Proofs.Layout.Stability

namespace Scriptlet

variable {α β γ : Type}

/-! ## Shapes of machines -/

/-- The closure without the notes of its body. -/
def Closure.shape (c : Closure α) : Closure Unit := ⟨c.params, Stmt.shapes c.body, c.scope⟩

/-- The machine without the notes in its closures. -/
def Machine.shape (m : Machine α) : Machine Unit where
  arena := m.arena
  closures := m.closures.map (Option.map Closure.shape)
  freeClosures := m.freeClosures
  output := m.output
  depth := m.depth
  calls := m.calls

/-- Why a computation gives no result, without the note. -/
def Halt.shape : Halt α → Halt Unit
  | .fault e => .fault ⟨e.cause, ()⟩
  | .outOfFuel => .outOfFuel

/-- How a run ends, without the note of a fault. -/
def Outcome.shape : Outcome α → Outcome Unit
  | .value v => .value v
  | .fault e => .fault ⟨e.cause, ()⟩
  | .outOfFuel => .outOfFuel

/-- The error that a run ends with, if any. -/
def Outcome.fault? : Outcome α → Option (RuntimeError α)
  | .fault e => some e
  | .value _ | .outOfFuel => none

/-- Only a fault has a fault to show. -/
theorem Outcome.fault?_eq_some {o : Outcome α} {e : RuntimeError α} :
    o.fault? = some e ↔ o = .fault e := by
  cases o <;> simp [fault?]

/-- An end with the shape of a fault is a fault with the same cause. -/
theorem Outcome.eq_fault_of_shape {o : Outcome α} {e : RuntimeError α}
    (h : o.shape = (Outcome.fault e).shape) : ∃ e', o = .fault e' ∧ e'.cause = e.cause := by
  cases o with
  | fault e' =>
    have hbare := Outcome.fault.inj h
    exact ⟨e', rfl, (RuntimeError.mk.inj hbare).1⟩
  | value v => exact nomatch h
  | outOfFuel => exact nomatch h

namespace Machine

/-- The table of closures keeps its numbers. -/
theorem closure?_shape (m : Machine α) (id : Nat) :
    m.shape.closure? id = (m.closure? id).map Closure.shape := by
  unfold closure? shape
  rw [Array.getElem?_map]
  cases m.closures[id]? <;> rfl

/-- Arguments are bound one after the other, each in the shape. -/
theorem shape_bindParams (i : ScopeId) (params : List String) (values : List Value)
    (m : Machine α) :
    (Eval.bindParams i params values m).shape = Eval.bindParams i params values m.shape := by
  unfold Eval.bindParams
  induction params.zip values generalizing m with
  | nil => rfl
  | cons entry rest ih => exact ih (m.declare i entry.1 entry.2)

/-- A closure gets the same number. -/
theorem define_shape (m : Machine α) (c : Closure α) :
    m.shape.define c.shape = ((m.define c).1, (m.define c).2.shape) := by
  obtain ⟨arena, closures, free, output, depth, calls⟩ := m
  cases free with
  | nil =>
    unfold define shape
    simp only [Array.size_map, Array.map_push, Option.map_some]
    rfl
  | cons id free =>
    unfold define shape
    simp only [Array.map_setIfInBounds, Option.map_some]
    rfl

/-- A new scope holds no closures. -/
theorem shape_opening (m : Machine α) (p : ScopeId) : (m.opening p).shape = m.shape.opening p := rfl

/-! ## Ending a scope -/

/-- Which scopes are captured is told by the scopes of closures, which have no notes. -/
theorem capturedBy_shape (m : Machine α) : m.shape.capturedBy = m.capturedBy := by
  funext v
  unfold capturedBy
  cases v.closure? with
  | none => rfl
  | some id =>
    rw [Option.bind_some, Option.bind_some, closure?_shape, Option.map_map]
    rfl

/-- Which closures nothing names is told by values. -/
theorem unnamed_shape (m : Machine α) (held : List Value) :
    m.shape.unnamed held = m.unnamed held := by
  unfold unnamed
  simp only [closure?_shape, Option.isSome_map]
  unfold shape
  rw [Array.size_map]

/-- The same closures are dropped in the shape. -/
theorem dropAll_shape (ids : List Nat) (m : Machine α) :
    ids.foldl dropClosure m.shape = (ids.foldl dropClosure m).shape := by
  induction ids generalizing m with
  | nil => rfl
  | cons id ids ih =>
    have hdrop : m.shape.dropClosure id = (m.dropClosure id).shape := by
      unfold dropClosure shape
      simp only [Array.map_setIfInBounds, Option.map_none]
    rw [List.foldl_cons, List.foldl_cons, hdrop]
    exact ih _

/-- A collection frees the same scopes and closures in the shape. -/
theorem collect_shape (m : Machine α) (held : List Value) :
    m.shape.collect held = (m.collect held).shape := by
  have hswept : m.shape.sweptScopes held = (m.sweptScopes held).shape := by
    unfold sweptScopes
    rw [capturedBy_shape]
    rfl
  show ((m.shape.sweptScopes held).unnamed held).foldl dropClosure (m.shape.sweptScopes held) = _
  rw [hswept, unnamed_shape, dropAll_shape]
  rfl

/-- **Ending a scope keeps the shape**: whether there is a collection, and what it takes, depends on
    no note. -/
theorem endScope_shape (settings : Settings) (held : List Value) (i : ScopeId) (m : Machine α) :
    m.shape.endScope settings held i = (m.endScope settings held i).shape := by
  unfold endScope
  split
  · dsimp only
    show (if (m.arena.release i).shouldCollect then
      Machine.collect (shape { m with arena := m.arena.release i }) held else
        shape { m with arena := m.arena.release i }) = _
    rw [collect_shape]
    split <;> rfl
  · rfl

end Machine

namespace Eval

/-! ## Rules -/

/-- How a computation ends, without the notes. -/
def ended : EStateM.Result (Halt α) (Machine α) β → EStateM.Result (Halt Unit) (Machine Unit) β
  | .ok b m => .ok b m.shape
  | .error e m => .error e.shape m.shape

/-- On the shape of a machine, `q` ends as `p` does on the machine. -/
def Erases (p : Eval α β) (q : Eval Unit β) : Prop := ∀ m, q m.shape = ended (p m)

section Rules

variable {p : Eval α β} {q : Eval Unit β} {f : β → Eval α γ} {g : β → Eval Unit γ}

theorem pure_erases {b : β} : Erases (pure b : Eval α β) (pure b) := fun _ => rfl

theorem throw_erases (e : Halt α) : Erases (throw e : Eval α β) (throw e.shape) := fun _ => rfl

/-- Only the site of a fault is a note. -/
theorem fail_erases (cause : RuntimeFault) (site : α) :
    Erases (fail cause site : Eval α β) (fail cause ()) :=
  throw_erases _

/-- Operators see values only. -/
theorem lift_erases (site : α) (r : Except RuntimeFault β) :
    Erases (lift site r) (lift () r) := by
  cases r with
  | ok b => exact pure_erases
  | error cause => exact fail_erases cause site

/-- A change that has a counterpart on shapes. -/
theorem modify_erases {f : Machine α → Machine α} {g : Machine Unit → Machine Unit}
    (h : ∀ m, g m.shape = (f m).shape) :
    Erases (modify f : Eval α PUnit) (modify g) := by
  intro m
  show EStateM.Result.ok PUnit.unit (g m.shape) = _
  rw [h]
  rfl

/-- What is done with the machine at hand. -/
theorem get_erases {f : Machine α → Eval α β} {g : Machine Unit → Eval Unit β}
    (h : ∀ m, Erases (f m) (g m.shape)) : Erases (get >>= f) (get >>= g) :=
  fun m => h m m

/-- **One computation after another.** -/
theorem Erases.bind (h : Erases p q) (hnext : ∀ b, Erases (f b) (g b)) :
    Erases (p >>= f) (q >>= g) := by
  intro m
  show EStateM.bind q g m.shape = ended (EStateM.bind p f m)
  unfold EStateM.bind
  rw [h m]
  cases p m with
  | ok b m' => exact hnext b m'
  | error e m' => rfl

/-- The tidy-up has a counterpart, and is made after a fault too. -/
theorem Erases.always (h : Erases p q) {tidy : Machine α → Machine α}
    {tidy' : Machine Unit → Machine Unit} (htidy : ∀ m, tidy' m.shape = (tidy m).shape) :
    Erases (Scriptlet.always tidy p) (Scriptlet.always tidy' q) := by
  intro m
  unfold Scriptlet.always
  rw [h m]
  cases p m with
  | ok b m' => exact congrArg (EStateM.Result.ok b) (htidy m')
  | error e m' => exact congrArg (EStateM.Result.error e.shape) (htidy m')

/-- A part inside a change of a counter that is undone on every way out. -/
theorem Erases.counted (h : Erases p q) (count tidy : Machine α → Machine α)
    (count' tidy' : Machine Unit → Machine Unit) (hcount : ∀ m, count' m.shape = (count m).shape)
    (htidy : ∀ m, tidy' m.shape = (tidy m).shape) :
    Erases (do modify count; Scriptlet.always tidy p)
      (do modify count'; Scriptlet.always tidy' q) :=
  (modify_erases hcount).bind fun _ => h.always htidy

/-- The depth and its limit are no notes. -/
theorem Erases.descend (h : Erases p q) (settings : Settings) (site : α) :
    Erases (descend settings site p) (descend settings () q) := by
  refine get_erases fun m => ?_
  show Erases (if m.depth < settings.limits.depth then _ else _)
    (if m.depth < settings.limits.depth then _ else _)
  split
  · exact h.counted _ _ _ _ (fun _ => rfl) fun _ => rfl
  · exact fail_erases _ site

/-- Scopes and bindings are the same in the shape. -/
theorem name_erases (scope : ScopeId) (x : String) (site : α) :
    Erases (lookUp site scope x) (lookUp () scope x) := by
  refine get_erases fun m => ?_
  have hbound : m.shape.arena.get? scope x = m.arena.get? scope x := rfl
  rw [hbound]
  cases m.arena.get? scope x with
  | some v => exact pure_erases
  | none => exact fail_erases _ site

theorem Erases.inCall (h : Erases p q) : Erases (inCall p) (inCall q) :=
  h.counted (fun m => { m with calls := m.calls + 1 }) (fun m => { m with calls := m.calls - 1 })
    (fun m => { m with calls := m.calls + 1 }) (fun m => { m with calls := m.calls - 1 })
    (fun _ => rfl) fun _ => rfl

/-- The scope takes the same slot, and its end frees the same. -/
theorem Erases.inScope {p : ScopeId → Eval α β} {q : ScopeId → Eval Unit β}
    (h : ∀ i, Erases (p i) (q i)) (settings : Settings) (held : List Value) (parent : ScopeId)
    (needed : β → List Value) :
    Erases (inScope settings held parent needed p) (inScope settings held parent needed q) := by
  intro m
  rw [inScope_eq, inScope_eq, ← Machine.shape_opening]
  have hslot : m.shape.arena.nextSlot parent = m.arena.nextSlot parent := rfl
  rw [hslot, h _ (m.opening parent)]
  cases p (m.arena.nextSlot parent) (m.opening parent) with
  | ok b m' => exact congrArg (EStateM.Result.ok b) (Machine.endScope_shape ..)
  | error e m' => exact congrArg (EStateM.Result.error e.shape) (Machine.endScope_shape ..)

end Rules

/-! ## Lists -/

/-- Argument by argument. -/
theorem arguments_erase {eval : List Value → Expr α → Eval α Value}
    {eval' : List Value → Expr Unit → Eval Unit Value}
    (h : ∀ held e, Erases (eval held e) (eval' held e.shape)) (es : List (Expr α))
    (held : List Value) :
    Erases (arguments eval held es) (arguments eval' held (Expr.shapes es)) := by
  induction es generalizing held with
  | nil => exact pure_erases
  | cons e rest ih =>
    refine (h held e).bind fun v => ?_
    exact (ih (v :: held)).bind fun others => pure_erases

theorem texts_erase {eval : Expr α → Eval α Value} {eval' : Expr Unit → Eval Unit Value}
    (h : ∀ e, Erases (eval e) (eval' e.shape)) (es : List (Expr α)) :
    Erases (texts eval es) (texts eval' (Expr.shapes es)) := by
  induction es with
  | nil => exact pure_erases
  | cons e rest ih =>
    refine (h e).bind fun v => ?_
    exact ih.bind fun others => pure_erases

/-- Statement by statement, up to the first that does not end normally. -/
theorem sequence_erases {exec : Stmt α → Eval α Flow} {exec' : Stmt Unit → Eval Unit Flow}
    (h : ∀ s, Erases (exec s) (exec' s.shape)) (body : List (Stmt α)) :
    Erases (sequence exec body) (sequence exec' (Stmt.shapes body)) := by
  induction body with
  | nil => exact pure_erases
  | cons s rest ih =>
    refine (h s).bind fun flow => ?_
    cases flow with
    | normal => exact ih
    | breaking | continuing | returning v => exact pure_erases

theorem optional_erases {eval : Expr α → Eval α Value} {eval' : Expr Unit → Eval Unit Value}
    (h : ∀ e, Erases (eval e) (eval' e.shape)) (e : Option (Expr α)) :
    Erases (optional eval e) (optional eval' (Expr.shape? e)) := by
  cases e with
  | none => exact pure_erases
  | some e => exact h e

/-! ## Functions -/

/-- A built-in function sees its argument only. -/
theorem callBuiltin_erases (site : α) (b : Builtin) (values : List Value) :
    Erases (callBuiltin site b values) (callBuiltin () b values) := by
  match values with
  | [v] => exact lift_erases site (b.apply v)
  | [] | _ :: _ :: _ => exact fail_erases _ site

/-- What is defined is the shape of the body, under the same number. -/
theorem defineFunction_erases (scope : ScopeId) (f : String) (params : List String)
    (body : List (Stmt α)) :
    Erases (defineFunction scope f params body)
      (defineFunction scope f params (Stmt.shapes body)) := by
  refine modify_erases fun m => ?_
  have hdefine := m.define_shape ⟨params, body, scope⟩
  show (m.shape.define (Closure.shape ⟨params, body, scope⟩)).2.declare scope f
    (.function (m.shape.define (Closure.shape ⟨params, body, scope⟩)).1 f) = _
  rw [hdefine]
  rfl

/-- A jump out of a body is a fault in both, at the call. -/
theorem result_erases (site : α) (flow : Flow) : Erases (result site flow) (result () flow) := by
  cases flow with
  | normal | returning v => exact pure_erases
  | breaking | continuing => exact fail_erases _ site

/-! ## Expressions, calls and statements -/

/-- Everything does in shape what it does, under a bound on steps. -/
structure Erased (α : Type) (settings : Settings) (fuel : Nat) : Prop where
  eval : ∀ held scope (e : Expr α),
    Erases (eval settings fuel held scope e) (eval settings fuel held scope e.shape)
  call : ∀ held (site : α) f values,
    Erases (call settings fuel held site f values) (call settings fuel held () f values)
  exec : ∀ held scope (s : Stmt α),
    Erases (exec settings fuel held scope s) (exec settings fuel held scope s.shape)
  turns : ∀ held scope (c : Expr α) body, Erases (turns settings fuel held scope c body)
    (turns settings fuel held scope c.shape (Stmt.shapes body))

section Steps

variable {settings : Settings} {fuel : Nat}

/-- The shape of an expression does what the expression does, one case for each kind of node. -/
theorem eval_erases (ih : Erased α settings fuel) (held : List Value) (scope : ScopeId)
    (e : Expr α) :
    Erases (eval settings (fuel + 1) held scope e)
      (eval settings (fuel + 1) held scope e.shape) := by
  rw [eval.eq_def, eval.eq_def]
  refine Erases.descend ?_ settings e.note
  cases e with
  | literal _ v => exact pure_erases
  | name site x => exact name_erases scope x site
  | unary site op e => exact (ih.eval held scope e).bind fun v => lift_erases site (op.apply v)
  | operation site op left right =>
    refine (ih.eval held scope left).bind fun l => ?_
    -- the left value is held on both machines
    have hright := ih.eval (l :: held) scope right
    cases op with
    | logical op =>
      dsimp only
      -- the left operand may decide, and it has one value
      split
      · exact pure_erases
      · exact hright
    | binary op => exact hright.bind fun r => lift_erases site (op.apply l r)
  | assign _ x e =>
    refine (ih.eval held scope e).bind fun v => ?_
    have hassign : Erases (modify fun m => m.assign scope x v : Eval α PUnit)
        (modify fun m => m.assign scope x v) := modify_erases fun _ => rfl
    exact hassign.bind fun _ => pure_erases
  | call site callee args =>
    refine (ih.eval held scope callee).bind fun f => ?_
    have hargs := arguments_erase (fun held e => ih.eval held scope e) args (f :: held)
    -- the same values are passed on, since a value names closures by number
    exact hargs.bind fun values => ih.call held site f values

/-- The closure called has the shape of the body on the shape of the machine. -/
theorem call_erases (ih : Erased α settings fuel) (held : List Value) (site : α) (f : Value)
    (values : List Value) :
    Erases (call settings (fuel + 1) held site f values)
      (call settings (fuel + 1) held () f values) := by
  rw [call.eq_def, call.eq_def]
  cases f with
  | builtin b => exact callBuiltin_erases site b values
  | nil | bool _ | integer _ | float _ | str _ => exact fail_erases _ site
  | function id name =>
    refine get_erases fun m => ?_
    -- the closure is in the same place, with the shape of its body
    rw [Machine.closure?_shape]
    cases m.closure? id with
    | none => exact fail_erases _ site
    | some c =>
      show Erases (if c.params.length ≠ values.length then _ else
          if settings.limits.calls ≤ m.calls then _ else _)
        (if c.params.length ≠ values.length then _ else
          if settings.limits.calls ≤ m.calls then _ else _)
      split
      · -- too many or too few arguments
        exact fail_erases _ site
      · split
        · -- too many calls at once
          exact fail_erases _ site
        · -- the body runs in a scope inside that of the closure
          have hbody := fun scope =>
            (modify_erases fun m => (Machine.shape_bindParams scope c.params values m).symm).bind
              fun _ => (sequence_erases (ih.exec (.function id name :: held) scope) c.body).inCall
          exact (Erases.inScope hbody settings (.function id name :: held) c.scope
            Flow.values).bind fun flow => result_erases site flow

/-- A body in a scope of its own. -/
theorem block_erases (ih : Erased α settings fuel) (held : List Value) (scope : ScopeId)
    (body : List (Stmt α)) :
    Erases
      (inScope settings held scope Flow.values fun inner =>
        sequence (exec settings fuel held inner) body)
      (inScope settings held scope Flow.values fun inner =>
        sequence (exec settings fuel held inner) (Stmt.shapes body)) :=
  Erases.inScope (fun inner => sequence_erases (ih.exec held inner) body) settings held scope _

/-- The shape of a statement does what the statement does, one case for each kind. -/
theorem exec_erases (ih : Erased α settings fuel) (held : List Value) (scope : ScopeId)
    (s : Stmt α) :
    Erases (exec settings (fuel + 1) held scope s)
      (exec settings (fuel + 1) held scope s.shape) := by
  -- statements that change the machine in the same way
  have hmodify : ∀ {f : Machine α → Machine α} {g : Machine Unit → Machine Unit},
      (∀ m, g m.shape = (f m).shape) →
      Erases (do modify f; return Flow.normal) (do modify g; return Flow.normal) :=
    fun h => (modify_erases h).bind fun _ => pure_erases
  rw [exec.eq_def, exec.eq_def]
  refine Erases.descend ?_ settings s.note
  cases s with
  | expr _ e => exact (ih.eval held scope e).bind fun _ => pure_erases
  | declare _ x e =>
    refine (optional_erases (ih.eval held scope) e).bind fun v => ?_
    exact hmodify fun m => rfl
  | print _ args =>
    refine (texts_erase (ih.eval held scope) args).bind fun parts => ?_
    exact hmodify fun m => rfl
  | block _ body => exact block_erases ih held scope body
  | cond _ condition consequent alternative =>
    have hcondition := ih.eval held scope condition
    cases alternative with
    | none =>
      refine hcondition.bind fun c => ?_
      dsimp only
      -- the condition has the same value
      split
      · exact block_erases ih held scope consequent
      · exact pure_erases
    | some branch =>
      refine hcondition.bind fun c => ?_
      dsimp only
      split
      · exact block_erases ih held scope consequent
      · exact ih.exec held scope branch
  | loop _ condition body => exact ih.turns held scope condition body
  | function _ f params body =>
    exact (defineFunction_erases scope f params body).bind fun _ => pure_erases
  | ret _ e => exact (optional_erases (ih.eval held scope) e).bind fun v => pure_erases
  | breakLoop _ | continueLoop _ => exact pure_erases

/-- Turn by turn; the bound counts the same turns. -/
theorem turns_erases (ih : Erased α settings fuel) (held : List Value) (scope : ScopeId)
    (c : Expr α) (body : List (Stmt α)) :
    Erases (turns settings (fuel + 1) held scope c body)
      (turns settings (fuel + 1) held scope c.shape (Stmt.shapes body)) := by
  rw [turns, turns]
  refine (ih.eval held scope c).bind fun v => ?_
  split
  · refine (block_erases ih held scope body).bind fun flow => ?_
    cases flow with
    | normal | continuing => exact ih.turns held scope c body
    | breaking | returning v => exact pure_erases
  · exact pure_erases

/-- **Notes decide nothing**: every part of a run does in shape what it does. -/
theorem erased (α : Type) (settings : Settings) (fuel : Nat) : Erased α settings fuel := by
  induction fuel with
  | zero =>
    refine ⟨fun held scope e => ?_, fun held site f values => ?_, fun held scope s => ?_,
      fun held scope c body => ?_⟩
    · rw [eval, eval]
      exact throw_erases .outOfFuel
    · rw [call, call]
      exact throw_erases .outOfFuel
    · rw [exec, exec]
      exact throw_erases .outOfFuel
    · rw [turns, turns]
      exact throw_erases .outOfFuel
  | succ fuel ih =>
    exact ⟨eval_erases ih, call_erases ih, exec_erases ih, turns_erases ih⟩

/-- A statement at the top level that is no expression, before those that follow. -/
theorem topLevelStmt_erases {last : Value} {rest : List (Stmt α)}
    (hrest : Erases (topLevel settings fuel last rest)
      (topLevel settings fuel last (Stmt.shapes rest))) (s : Stmt α) : Erases
      (followed (exec settings fuel [last] Arena.global s) (topLevel settings fuel last rest)
        fun flow => fail flow.misplaced s.note)
      (followed (exec settings fuel [last] Arena.global s.shape)
        (topLevel settings fuel last (Stmt.shapes rest))
        fun flow => fail flow.misplaced s.shape.note) := by
  refine ((erased α settings fuel).exec [last] Arena.global s).bind fun flow => ?_
  cases flow with
  | normal => exact hrest
  | breaking | continuing | returning _ => exact fail_erases _ s.note

/-- Top-level statements, one after another. -/
theorem topLevel_erases (last : Value) (statements : List (Stmt α)) :
    Erases (topLevel settings fuel last statements)
      (topLevel settings fuel last (Stmt.shapes statements)) := by
  induction statements generalizing last with
  | nil =>
    rw [Stmt.shapes, topLevel, topLevel]
    exact pure_erases
  | cons s rest ih =>
    cases s with
    | expr site e =>
      rw [Stmt.shapes, Stmt.shape, topLevel, topLevel]
      exact ((erased α settings fuel).eval [last] Arena.global e).bind fun v => ih v
    | cond _ _ _ alternative => cases alternative <;> exact topLevelStmt_erases (ih last) _
    | _ => exact topLevelStmt_erases (ih last) _

end Steps

end Eval

/-! ## Programs -/

namespace Machine

open Eval

/-- **The shape of a program runs like the program**, in shape. -/
theorem run_shape (settings : Settings) (fuel : Nat) (p : Program α) (m : Machine α) :
    m.shape.run settings fuel p.shape =
      ((m.run settings fuel p).1.shape, (m.run settings fuel p).2.shape) := by
  have hrun : topLevel settings fuel .nil (Stmt.shapes p.statements) m.shape =
      ended (topLevel settings fuel .nil p.statements m) := topLevel_erases .nil p.statements m
  unfold run Program.shape
  rw [hrun]
  cases topLevel settings fuel .nil p.statements m with
  | ok v m' => rfl
  | error e m' =>
    cases e with
    | fault e => rfl
    | outOfFuel => rfl

/-- Two ends of a run that differ at most in the place of a fault. -/
structure SameEnd (o o' : Outcome α) (m m' : Machine α) : Prop where
  /-- The same value, or a fault with the same cause. -/
  outcome : o'.shape = o.shape
  output : m'.output = m.output
  /-- The same scopes in the same slots, so the same global bindings and as many slots in use. -/
  arena : m'.arena = m.arena
  /-- Whatever else a later program could see. -/
  rest : m'.shape = m.shape

/-- Programs of one shape come to the same ends. -/
theorem Finishes.of_shape {settings : Settings} {start : Machine α} {p q : Program α}
    (hshape : q.shape = p.shape) {o : Outcome α} {m : Machine α}
    (h : start.Finishes settings p o m) :
    ∃ o' m', start.Finishes settings q o' m' ∧ SameEnd o o' m m' := by
  obtain ⟨hend, fuel, hrun⟩ := h
  have hsame := run_shape settings fuel q start
  rw [hshape, run_shape, hrun] at hsame
  obtain ⟨houtcome, hmachine⟩ := Prod.mk.inj hsame
  refine ⟨(start.run settings fuel q).1, (start.run settings fuel q).2, ⟨fun hfuel => hend ?_,
    fuel, rfl⟩, houtcome.symm, ?_, ?_, hmachine.symm⟩
  · rw [hfuel] at houtcome
    cases o with
    | outOfFuel => rfl
    | value v => exact nomatch houtcome
    | fault e => exact nomatch houtcome
  · exact (congrArg Machine.output hmachine).symm
  · exact (congrArg Machine.arena hmachine).symm

/-- **Formatting preserves behaviour.**  A program that was accepted and what its format is read
    back as come to the same ends on fresh machines, if to any: they print the same, give the same
    value or fail with the same cause, and leave the same scopes.  Only the place of a fault may
    differ. -/
theorem finishes_format {source : String} {p q : Program Origin}
    (hp : parseSource source = .ok p) (hq : parseSource p.format = .ok q) (limits : Limits) :
    (∀ o m, initial.Finishes (.reclaiming limits) p o m →
      ∃ o' m', initial.Finishes (.reclaiming limits) q o' m' ∧ SameEnd o o' m m') ∧
    (∀ o' m', initial.Finishes (.reclaiming limits) q o' m' →
      ∃ o m, initial.Finishes (.reclaiming limits) p o m ∧ SameEnd o o' m m') := by
  have hshape : q.shape = p.shape := by
    obtain ⟨hfits, hdeep⟩ := p.parseSource_of_wellFormed (Program.wellFormed_of_parseSource hp)
    rcases Nat.lt_or_ge maxNesting p.nesting with hlt | hle
    · obtain ⟨e, he, -⟩ := hdeep hlt
      rw [hq] at he
      exact nomatch he
    · obtain ⟨q', hq', hshape⟩ := hfits hle
      rw [hq] at hq'
      rw [Except.ok.inj hq', hshape]
  refine ⟨fun o m h => h.of_shape hshape, fun o' m' h => ?_⟩
  obtain ⟨o, m, hfinishes, hsame⟩ := h.of_shape hshape.symm
  exact ⟨o, m, hfinishes, hsame.outcome.symm, hsame.output.symm, hsame.arena.symm, hsame.rest.symm⟩

/-- A division by zero, printed once before: with blanks around it the operator stands further
    right, and the fault is reported there. -/
theorem finishes_format_division : ∃ p q e m e' m', parseSource "print(7)\nlet x=1/0" = .ok p ∧
    parseSource p.format = .ok q ∧ initial.Finishes (.reclaiming {}) p (.fault e) m ∧
    e.cause = .divisionByZero ∧ e.site.span = ⟨2, 8⟩ ∧
    initial.Finishes (.reclaiming {}) q (.fault e') m' ∧ e'.cause = e.cause ∧
    m'.output = m.output := by
  -- the source itself, evaluated: its nesting and its fault
  have hrun : (parseSource "print(7)\nlet x=1/0").toOption.map (fun p => (p.nesting,
      (initial.run (.reclaiming {}) 4 p).1.fault?.map fun e => (e.cause, e.site.span))) =
        some (1, some (.divisionByZero, ⟨2, 8⟩)) := by
    decide +kernel
  cases hp : parseSource "print(7)\nlet x=1/0" with
  | error e => rw [hp] at hrun; exact nomatch hrun
  | ok p =>
    rw [hp] at hrun
    obtain ⟨hnesting, hfault⟩ := Prod.mk.inj (Option.some.inj hrun)
    -- it nests no deeper than allowed, so its format is parsed
    obtain ⟨q, hq, -⟩ := (p.parseSource_of_wellFormed (Program.wellFormed_of_parseSource hp)).1
      (by rw [hnesting]; decide)
    obtain ⟨e, he, hspan⟩ := Option.map_eq_some_iff.mp hfault
    obtain ⟨hcause, hplace⟩ := Prod.mk.inj hspan
    have houtcome : (initial.run (.reclaiming {}) 4 p).1 = .fault e := Outcome.fault?_eq_some.mp he
    have hfinishes : initial.Finishes (.reclaiming {}) p (.fault e)
        (initial.run (.reclaiming {}) 4 p).2 := ⟨nofun, 4, by rw [← houtcome]⟩
    -- and a run of the format ends as the theorem says
    obtain ⟨o', m', hfinishes', hsame⟩ := (finishes_format hp hq {}).1 _ _ hfinishes
    obtain ⟨e', rfl, hcause'⟩ := Outcome.eq_fault_of_shape hsame.outcome
    exact ⟨p, q, e, _, e', m', rfl, hq, hfinishes, hcause, hplace, hfinishes', hcause',
      hsame.output⟩

end Machine

end Scriptlet
