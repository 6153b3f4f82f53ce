/-
  Courses: what a run can do to a machine, said once.

  1. **Steps** (`Machine.stepsFrom`, `Watch.steps`) — the states before and after each change.
  2. **Touching** (`Machine.Touches`) — the changes made while a scope is the current one: a name is
     bound in it or assigned from it, a function is defined in it, a segment is printed, a counter
     goes up or down.
  3. **Courses** (`Course`) — what happens from a state on, with the states passed and the ends of
     scopes.  Besides touching the current scope there is one thing only: a scope is opened in the
     current scope or in that of a closure, has a course of its own, and ends.
  4. **The walk** (`Watched.takes`) — whatever is evaluated takes a course, with the states and the
     ends of scopes that are written down.
-/
import Scriptlet.Proofs.Eval.Bookkeeping

namespace Scriptlet

variable {α β γ : Type}

/-! ## Ends of scopes -/

/-- The ends of scopes, in order, in programs run one after another on a machine, each with a bound
    on its steps, also after faults. -/
def Machine.scopeEnds (settings : Settings) (m : Machine α) (steps : List (Nat × Program α)) :
    List (ScopeEnd α) :=
  ((Watch.start m).runAll settings steps).2.ends.reverse

-- A function that returns itself: when its scope ends, it is held as what is returned, and as what
-- is called.
example :
    let program : Program Unit :=
      ⟨[.function () "f" [] [.ret () (some (.name () "f"))],
        .expr () (.call () (.name () "f") [])]⟩
    (Machine.initial.scopeEnds {} [(4, program)]).map ScopeEnd.held =
      [[.function 0 "f", .function 0 "f", .nil]] := by
  rfl

/-! ## Steps -/

namespace Machine

variable {m : Machine α}

/-- The steps through states passed from `m` on; the latest state and step come first. -/
def stepsFrom (m : Machine α) : List (Machine α) → List (Machine α × Machine α)
  | [] => []
  | k :: earlier => (earlier.headD m, k) :: m.stepsFrom earlier

theorem headD_append (later earlier : List (Machine α)) :
    (later ++ earlier).headD m = later.headD (earlier.headD m) := by
  cases later <;> rfl

theorem stepsFrom_append (later earlier : List (Machine α)) :
    m.stepsFrom (later ++ earlier)
      = (earlier.headD m).stepsFrom later ++ m.stepsFrom earlier := by
  induction later with
  | nil => rfl
  | cons k later ih =>
    rw [List.cons_append, stepsFrom, stepsFrom, headD_append, ih, List.cons_append]

/-- The steps through a scope: it is opened, its body is run, it ends. -/
theorem stepsFrom_nested (opened ended : Machine α) (new : List (Machine α)) :
    m.stepsFrom (ended :: (new ++ [opened]))
      = (new.headD opened, ended) :: (opened.stepsFrom new ++ [(m, opened)]) := by
  rw [stepsFrom, stepsFrom_append, headD_append]
  rfl

/-- The latest state is the first one, or one of those passed. -/
theorem headD_eq_or_mem (new : List (Machine α)) : new.headD m = m ∨ new.headD m ∈ new := by
  cases new with
  | nil => exact .inl rfl
  | cons k earlier => exact .inr (List.mem_cons_self ..)

/-- A change made while the scope `s` is the current one. -/
inductive Touches (s : ScopeId) (m : Machine α) : Machine α → Prop
  | count (depth calls : Nat) : Touches s m { m with depth, calls }
  | declare (x : String) (v : Value) : Touches s m (m.declare s x v)
  | bindParams (params : List String) (values : List Value) :
      Touches s m (Eval.bindParams s params values m)
  | assign (x : String) (v : Value) : Touches s m (m.assign s x v)
  | define (f : String) (params : List String) (body : List (Stmt α)) :
      Touches s m ((m.define ⟨params, body, s⟩).2.declare s f
        (.function (m.define ⟨params, body, s⟩).1 f))
  | print (segment : String) : Touches s m (m.printSegment segment)

/-- A scope may be opened inside `p`: it is the current one, or that of a closure. -/
def Opens (here : Option ScopeId) (m : Machine α) (p : ScopeId) : Prop :=
  here = some p ∨ ∃ id c, m.closure? id = some c ∧ c.scope = p

end Machine

/-- The steps of a run so far, the latest first. -/
def Watch.steps (w : Watch α) : List (Machine α × Machine α) := w.passed.tail.zip w.passed

theorem Watch.steps_eq {w : Watch α} {m : Machine α} {new : List (Machine α)}
    (h : w.passed = new ++ [m]) : w.steps = m.stepsFrom new := by
  have hzip : ∀ new : List (Machine α), (new ++ [m]).tail.zip (new ++ [m]) = m.stepsFrom new := by
    intro new
    induction new with
    | nil => rfl
    | cons k earlier ih =>
      cases earlier with
      | nil => rfl
      | cons k' earlier => exact congrArg ((k', k) :: ·) ih
  unfold steps
  rw [h]
  exact hzip new

/-! ## Courses -/

/-- What a machine goes through from a state on while the scope `here` is the current one, none
    while a call is being prepared: the states passed, the latest first, and the ends of scopes. -/
inductive Course (settings : Settings) :
    Option ScopeId → Machine α → List (Machine α) → List (ScopeEnd α) → Prop
  | stay {here : Option ScopeId} {m : Machine α} : Course settings here m [] []
  | touch {s : ScopeId} {m k : Machine α} (h : m.Touches s k) : Course settings (some s) m [k] []
  | andThen {here : Option ScopeId} {m : Machine α} {new new' : List (Machine α)}
      {ends ends' : List (ScopeEnd α)} (first : Course settings here m new ends)
      (second : Course settings here (new.headD m) new' ends') :
      Course settings here m (new' ++ new) (ends ++ ends')
  | nested {here : Option ScopeId} {m : Machine α} {p : ScopeId} {new : List (Machine α)}
      {ends : List (ScopeEnd α)} (hp : m.Opens here p)
      (inner : Course settings (some (m.arena.nextSlot p)) (m.opening p) new ends)
      (held : List Value) :
      Course settings here m
        ((new.headD (m.opening p)).endScope settings held (m.arena.nextSlot p) ::
          (new ++ [m.opening p]))
        (ends ++ [⟨new.headD (m.opening p), held, m.arena.nextSlot p⟩])

/-- From `w` to `w'` a course is taken; the states and the ends of scopes in it were written down. -/
def Watch.Follows (settings : Settings) (here : Option ScopeId) (w w' : Watch α) : Prop :=
  ∃ new ends, w'.passed = new ++ w.passed ∧ w'.ends = ends.reverse ++ w.ends ∧
    w'.machine = new.headD w.machine ∧ Course settings here w.machine new ends

namespace Watch

variable {settings : Settings} {here : Option ScopeId} {s : ScopeId} {w w' w'' : Watch α}

theorem Follows.refl : w.Follows settings here w := ⟨[], [], rfl, rfl, rfl, .stay⟩

theorem Follows.trans (h : w.Follows settings here w') (h' : w'.Follows settings here w'') :
    w.Follows settings here w'' := by
  obtain ⟨new, ends, hpassed, hends, hmachine, hcourse⟩ := h
  obtain ⟨new', ends', hpassed', hends', hmachine', hcourse'⟩ := h'
  rw [hmachine] at hmachine' hcourse'
  refine ⟨new' ++ new, ends ++ ends', ?_, ?_, ?_, hcourse.andThen hcourse'⟩
  · rw [hpassed', hpassed, List.append_assoc]
  · rw [hends', hends, List.reverse_append, List.append_assoc]
  · rw [hmachine', Machine.headD_append]

theorem Follows.change {f : Machine α → Machine α} (hf : w.machine.Touches s (f w.machine)) :
    w.Follows settings (some s) (w.change f) := ⟨[f w.machine], [], rfl, rfl, rfl, .touch hf⟩

theorem Follows.nested {p : ScopeId} (hp : w.machine.Opens here p)
    (h : (w.change (·.opening p)).Follows settings (some (w.machine.arena.nextSlot p)) w')
    (held : List Value) :
    w.Follows settings here (w'.close settings held (w.machine.arena.nextSlot p)) := by
  obtain ⟨new, ends, hpassed, hends, hmachine, hcourse⟩ := h
  refine ⟨w'.machine.endScope settings held (w.machine.arena.nextSlot p) ::
    (new ++ [w.machine.opening p]), ends ++ [⟨w'.machine, held, w.machine.arena.nextSlot p⟩],
    ?_, ?_, rfl, ?_⟩
  · show _ :: w'.passed = _
    rw [hpassed, List.cons_append, List.append_assoc]
    rfl
  · show _ :: w'.ends = _
    rw [hends, List.reverse_append]
    rfl
  · rw [hmachine]
    exact .nested hp hcourse held

end Watch

namespace Watched

open Eval (arguments texts followed sequence optional operation)

/-! ## The walk: rules -/

/-- Watched, the computation takes a course. -/
def Takes (settings : Settings) (here : Option ScopeId) (q : Watched α β) : Prop :=
  ∀ w : Watch α, w.Follows settings here (left (q w))

section Rules

variable {settings : Settings} {here : Option ScopeId} {s : ScopeId} {q : Watched α β}
  {g : β → Watched α γ}

theorem pure_takes (b : β) : Takes settings here (pure b : Watched α β) := fun _ => .refl

theorem throw_takes (e : Halt α) : Takes settings here (throw e : Watched α β) := fun _ => .refl

/-- What leaves the machine as it is is no part of a course. -/
theorem quiet_takes (p : Eval α β) : Takes settings here (quiet p) := by
  intro w
  unfold quiet
  cases p w.machine with
  | ok b m => exact .refl
  | error e m => exact .refl

/-- A computation that begins with a look at the machine. -/
theorem takes_of_machine {f : Machine α → Watched α β}
    (h : ∀ w : Watch α, w.Follows settings here (left (f w.machine w))) :
    Takes settings here (machine >>= f) := h

/-- Notes play no part. -/
theorem Takes.noted (h : Takes settings here q) (j : Jump α) :
    Takes settings here (do note j; q) := fun w => h (w.note j)

/-- Landings are no part of a course. -/
theorem Takes.landed (h : Takes settings here q) (frames : List (Frame α)) (flow : Flow) :
    Takes settings here (do land frames flow; q) := by
  cases flow with
  | normal => exact h
  | breaking | continuing | returning v => exact h.noted _

/-- Nor do points. -/
theorem Takes.returning (h : Takes settings here q) (needed : β → List Value) (held : List Value)
    (scope : ScopeId) : Takes settings here (returning needed held scope q) := by
  intro w
  have hw := h w
  unfold Watched.returning
  cases hq : q w with
  | ok b w' =>
    rw [hq] at hw
    exact hw
  | error e w' =>
    rw [hq] at hw
    exact hw

/-- One course after another. -/
theorem follows_bind {w : Watch α} (h : w.Follows settings here (left (q w)))
    (hnext : ∀ b, Takes settings here (g b)) : w.Follows settings here (left ((q >>= g) w)) := by
  show w.Follows settings here (left (EStateM.bind q g w))
  unfold EStateM.bind
  cases hq : q w with
  | ok b w' =>
    rw [hq] at h
    exact h.trans (hnext b w')
  | error e w' =>
    rw [hq] at h
    exact h

/-- One course after another. -/
theorem Takes.bind (h : Takes settings here q) (hnext : ∀ b, Takes settings here (g b)) :
    Takes settings here (q >>= g) :=
  fun w => follows_bind (h w) hnext

/-- A change that touches the current scope. -/
theorem change_takes {f : Machine α → Machine α} (hf : ∀ m : Machine α, m.Touches s (f m)) :
    Takes settings (some s) (change f) :=
  fun w => .change (hf w.machine)

/-- Between two changes. -/
theorem Takes.between {before after : Machine α → Machine α}
    (hbefore : ∀ m : Machine α, m.Touches s (before m))
    (hafter : ∀ m : Machine α, m.Touches s (after m)) (h : Takes settings (some s) q) :
    Takes settings (some s) (between before after q) := by
  refine (change_takes hbefore).bind fun _ w => ?_
  rw [left_always]
  exact (h w).trans (.change (hafter (left (q w)).machine))

/-- The counter of calls goes up and down in the current scope. -/
theorem Takes.inCall (h : Takes settings (some s) q) : Takes settings (some s) (inCall q) :=
  h.between (fun m => .count m.depth (m.calls + 1)) fun m => .count m.depth (m.calls - 1)

/-- So does the depth. -/
theorem Takes.descend (h : Takes settings (some s) q) (site : α) :
    Takes settings (some s) (descend settings site q) := by
  refine takes_of_machine fun w => ?_
  split
  · exact h.between (fun m => .count (m.depth + 1) m.calls)
      (fun m => .count (m.depth - 1) m.calls) w
  · exact quiet_takes _ w

/-- **A scope** is opened, has its course, and ends. -/
theorem follows_inScope {q : ScopeId → Watched α β} {parent : ScopeId} {w : Watch α}
    (h : ∀ i, Takes settings (some i) (q i)) (hp : w.machine.Opens here parent)
    (held : List Value) (needed : β → List Value) :
    w.Follows settings here (left (inScope settings held parent needed q w)) := by
  have hinner := h (w.machine.arena.nextSlot parent) (w.change (·.opening parent))
  obtain ⟨values, hleft⟩ := left_inScope settings held parent needed q w
  rw [hleft]
  exact hinner.nested hp values

end Rules

/-! ## The walk: lists -/

section Lists

variable {settings : Settings} {here : Option ScopeId}

/-- Argument by argument. -/
theorem arguments_take {eval : List Value → Expr α → Watched α Value}
    (h : ∀ held e, Takes settings here (eval held e)) (es : List (Expr α)) (held : List Value) :
    Takes settings here (arguments eval held es) := by
  induction es generalizing held with
  | nil => exact pure_takes _
  | cons e rest ih => exact (h held e).bind fun v => (ih (v :: held)).bind fun _ => pure_takes _

theorem texts_take {eval : Expr α → Watched α Value} (h : ∀ e, Takes settings here (eval e))
    (es : List (Expr α)) : Takes settings here (texts eval es) := by
  induction es with
  | nil => exact pure_takes _
  | cons e rest ih => exact (h e).bind fun v => ih.bind fun _ => pure_takes _

/-- Statement by statement, up to the first that does not end normally. -/
theorem sequence_takes {exec : Stmt α → Watched α Flow} (h : ∀ s, Takes settings here (exec s))
    (body : List (Stmt α)) : Takes settings here (sequence exec body) := by
  induction body with
  | nil => exact pure_takes _
  | cons s rest ih =>
    refine (h s).bind fun flow => ?_
    cases flow with
    | normal => exact ih
    | breaking | continuing | returning v => exact pure_takes _

theorem optional_takes {eval : Expr α → Watched α Value} (h : ∀ e, Takes settings here (eval e))
    (e : Option (Expr α)) : Takes settings here (optional eval e) := by
  cases e with
  | none => exact pure_takes _
  | some e => exact h e

end Lists

/-! ## The walk: expressions, calls and statements -/

/-- Everything takes a course under a bound on steps. -/
structure AllTake (α : Type) (settings : Settings) (fuel : Nat) : Prop where
  eval : ∀ held scope frames (e : Expr α),
    Takes settings (some scope) (eval settings fuel held scope frames e)
  call : ∀ here held frames (site : α) f values,
    Takes settings here (call settings fuel held frames site f values)
  exec : ∀ held scope frames (s : Stmt α),
    Takes settings (some scope) (exec settings fuel held scope frames s)
  turns : ∀ held scope frames (c : Expr α) body,
    Takes settings (some scope) (turns settings fuel held scope frames c body)

section Parts

variable {settings : Settings} {fuel : Nat}

/-- An expression touches its own scope, and what it calls has scopes of its own. -/
theorem eval_takes (ih : AllTake α settings fuel) (held : List Value) (scope : ScopeId)
    (frames : List (Frame α)) (e : Expr α) :
    Takes settings (some scope) (eval settings (fuel + 1) held scope frames e) := by
  have hpart : ∀ held e, Takes settings (some scope) (eval settings fuel held scope frames e) :=
    fun held e => ih.eval held scope frames e
  rw [eval.eq_def]
  refine Takes.returning (Takes.descend ?_ e.note) alone held scope
  cases e with
  | literal _ v => exact pure_takes _
  | name site x => exact quiet_takes _
  | unary site op e => exact (hpart held e).bind fun v => quiet_takes _
  | operation site op left right =>
    refine (hpart held left).bind fun l => ?_
    cases op with
    | logical op =>
      dsimp only
      -- the left operand may decide: no more states are passed
      split
      · exact pure_takes _
      · exact hpart (l :: held) right
    | binary op => exact (hpart (l :: held) right).bind fun r => quiet_takes _
  | assign _ x e =>
    refine (hpart held e).bind fun v => ?_
    -- wherever the name is bound, the assignment is a step of this scope
    exact (change_takes fun m => .assign x v).bind fun _ => pure_takes v
  | call site callee args =>
    refine (hpart held callee).bind fun f => ?_
    -- a call is made from this scope, and runs in others
    exact (arguments_take hpart args (f :: held)).bind fun values =>
      ih.call (some scope) held frames site f values

/-- A call opens a scope in that of the closure, whatever scope is the current one. -/
theorem call_takes (ih : AllTake α settings fuel) (here : Option ScopeId) (held : List Value)
    (frames : List (Frame α)) (site : α) (f : Value) (values : List Value) :
    Takes settings here (call settings (fuel + 1) held frames site f values) := by
  rw [call.eq_def]
  cases f with
  | builtin b => exact quiet_takes _
  | nil | bool _ | integer _ | float _ | str _ => exact quiet_takes _
  | function id name =>
    refine takes_of_machine fun w => ?_
    cases hc : w.machine.closure? id with
    | none => exact quiet_takes _ w
    | some c =>
      dsimp only
      split
      · exact quiet_takes _ w
      · split
        · exact quiet_takes _ w
        · -- the scope of the call is opened in that of the closure
          have hopens : w.machine.Opens here c.scope := .inr ⟨id, c, hc, rfl⟩
          refine follows_bind (follows_inScope (fun scope => ?_) hopens _ _) fun flow =>
            (quiet_takes _).landed _ flow
          refine (change_takes fun m => .bindParams c.params values).bind fun _ => ?_
          exact (sequence_takes (ih.exec _ scope _) c.body).inCall

/-- A body has a scope of its own in the current one. -/
theorem block_takes (ih : AllTake α settings fuel) (held : List Value) (scope : ScopeId)
    (frames : List (Frame α)) (body : List (Stmt α)) :
    Takes settings (some scope) (inScope settings held scope Flow.values fun inner =>
      sequence (exec settings fuel held inner frames) body) :=
  fun _ => follows_inScope (fun inner => sequence_takes (ih.exec held inner frames) body) (.inl rfl)
    held Flow.values

/-- A statement touches its own scope, one case for each kind. -/
theorem exec_takes (ih : AllTake α settings fuel) (held : List Value) (scope : ScopeId)
    (frames : List (Frame α)) (s : Stmt α) :
    Takes settings (some scope) (exec settings (fuel + 1) held scope frames s) := by
  have heval := ih.eval held scope frames
  -- statements that change the machine in this scope, and then end as usual
  have hchange {f : Machine α → Machine α} (hf : ∀ m : Machine α, m.Touches scope (f m)) :
      Takes settings (some scope) (do change f; return Flow.normal) :=
    (change_takes hf).bind fun _ => pure_takes _
  rw [exec.eq_def]
  refine Takes.returning (Takes.descend ?_ s.note) Flow.values held scope
  cases s with
  | expr _ e => exact (heval e).bind fun _ => pure_takes _
  | declare _ x e => exact (optional_takes heval e).bind fun v => hchange fun m => .declare x v
  | print _ args => exact (texts_take heval args).bind fun parts => hchange fun m => .print _
  | block _ body => exact block_takes ih held scope frames body
  | cond _ condition consequent alternative =>
    refine (heval condition).bind fun c => ?_
    -- either block has a scope of its own
    split
    · exact block_takes ih held scope frames consequent
    · cases alternative with
      | none => exact pure_takes _
      | some branch => exact ih.exec held scope frames branch
  | loop _ condition body => exact ih.turns held scope frames condition body
  | function _ f params body => exact hchange fun m => .define f params body
  | ret a e => exact (optional_takes heval e).bind fun v => (pure_takes (Flow.returning v)).noted _
  | breakLoop a | continueLoop a => exact (pure_takes _).noted _

/-- Every turn of a loop has a scope of its own. -/
theorem turns_takes (ih : AllTake α settings fuel) (held : List Value) (scope : ScopeId)
    (frames : List (Frame α)) (c : Expr α) (body : List (Stmt α)) :
    Takes settings (some scope) (turns settings (fuel + 1) held scope frames c body) := by
  rw [turns]
  refine (ih.eval held scope frames c).bind fun v => ?_
  split
  · refine (block_takes ih held scope (.loop body :: frames) body).bind fun flow => ?_
    cases flow with
    | normal | continuing => exact (ih.turns held scope frames c body).landed _ _
    | breaking => exact (pure_takes _).landed _ _
    | returning v => exact pure_takes _
  · exact pure_takes _

/-- **Whatever is evaluated takes a course**, under any bound on steps. -/
theorem takes (α : Type) (settings : Settings) (fuel : Nat) : AllTake α settings fuel := by
  induction fuel with
  | zero =>
    refine ⟨fun held scope frames e => ?_, fun here held frames site f values => ?_,
      fun held scope frames s => ?_, fun held scope frames c body => ?_⟩
    · rw [eval]
      exact throw_takes _
    · rw [call]
      exact throw_takes _
    · rw [exec]
      exact throw_takes _
    · rw [turns]
      exact throw_takes _
  | succ fuel ih => exact ⟨eval_takes ih, call_takes ih, exec_takes ih, turns_takes ih⟩

/-- A statement at the top level that is no expression, before those that follow. -/
theorem topLevelStmt_takes {frames : List (Frame α)} {last : Value} {rest : List (Stmt α)}
    (hrest : Takes settings (some Arena.global) (topLevel settings fuel frames last rest))
    (s : Stmt α) : Takes settings (some Arena.global)
      (followed (exec settings fuel [last] Arena.global frames s)
        (topLevel settings fuel frames last rest) fun flow => do
          land frames flow
          quiet (Eval.fail flow.misplaced s.note)) := by
  refine ((takes α settings fuel).exec [last] Arena.global frames s).bind fun flow => ?_
  cases flow with
  | normal => exact hrest
  | breaking | continuing | returning _ => exact (quiet_takes _).landed _ _

/-- Top-level statements touch the global scope. -/
theorem topLevel_takes (frames : List (Frame α)) (last : Value) (statements : List (Stmt α)) :
    Takes settings (some Arena.global) (topLevel settings fuel frames last statements) := by
  induction statements generalizing last with
  | nil =>
    rw [topLevel]
    exact pure_takes _
  | cons s rest ih =>
    cases s with
    | expr site e =>
      rw [topLevel]
      exact ((takes α settings fuel).eval [last] Arena.global frames e).bind fun v => ih v
    | _ => exact topLevelStmt_takes (ih last) _

end Parts

end Watched

/-! ## Programs -/

namespace Watch

variable {w : Watch α}

/-- **One program** takes a course in the global scope. -/
theorem run_follows (settings : Settings) (fuel : Nat) (p : Program α) (w : Watch α) :
    w.Follows settings (some Arena.global) (w.run settings fuel p).2 := by
  rw [left_run]
  exact (Watched.topLevel_takes _ .nil p.statements).returning _ _ _ w

/-- **Programs one after the other take a course.** -/
theorem runAll_follows (settings : Settings) (steps : List (Nat × Program α)) (w : Watch α) :
    w.Follows settings (some Arena.global) (w.runAll settings steps).2 := by
  induction steps generalizing w with
  | nil => exact .refl
  | cons step rest ih =>
    obtain ⟨fuel, p⟩ := step
    exact (run_follows settings fuel p w).trans (ih (w.run settings fuel p).2)

end Watch

end Scriptlet
