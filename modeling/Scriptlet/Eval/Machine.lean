/-
  The machine: everything a running program changes.

  1. **State** — the scopes, the closures that function values name, the printed segments, and two
     counters: statements and expressions being evaluated inside one another, and calls.
  2. **Ending a scope** — releases it, and collects garbage when enough captured scopes were
     released.  Values that the evaluation in progress still needs (operands, a callee, arguments,
     a value being returned, the last result) are not bound anywhere; they are given as `held`, and
     the scopes of their closures are roots.  Afterwards every closure that neither a bound nor a
     held value names is dropped.
  3. **Reclamation** — with `reclaim` off, ending a scope only ends its activation: no slot is ever
     emptied or used again.
-/
import Scriptlet.Cleanup
import Scriptlet.Eval.Fault
import Scriptlet.Scope.Collect

namespace Scriptlet

/-! ## Settings -/

/-- Bounds on a run. -/
structure Limits where
  /-- Calls inside one another. -/
  calls : Nat := 200
  /-- Statements and expressions inside one another, across all calls. -/
  depth : Nat := 1024
  deriving Repr, DecidableEq

/-- How a machine runs programs. -/
structure Settings where
  limits : Limits := {}
  /-- Whether slots of scopes and closures no longer needed are used again. -/
  reclaim : Bool := true
  deriving Repr, DecidableEq

/-! ## State -/

/-- What a function value stands for: a function and the scope it was defined in. -/
structure Closure (α : Type) where
  params : List String
  body : List (Stmt α)
  scope : ScopeId

/-- The state of a running program. -/
structure Machine (α : Type) where
  arena : Arena
  closures : Array (Option (Closure α))
  /-- Empty slots of closures, the next one to fill first. -/
  freeClosures : List Nat
  /-- Printed segments, oldest first. -/
  output : Array String
  /-- Statements and expressions being evaluated. -/
  depth : Nat
  /-- Calls being evaluated. -/
  calls : Nat

namespace Machine

variable {α : Type}

/-- A machine whose global scope binds the built-in functions. -/
def initial : Machine α where
  arena := Builtin.all.foldl (fun a b => a.declare Arena.global b.name (.builtin b)) Arena.empty
  closures := #[]
  freeClosures := []
  output := #[]
  depth := 0
  calls := 0

/-- The closure with a number. -/
def closure? (m : Machine α) (id : Nat) : Option (Closure α) := (m.closures[id]?).join

/-- Binds a name in a scope. -/
def declare (m : Machine α) (scope : ScopeId) (name : String) (value : Value) : Machine α :=
  { m with arena := m.arena.declare scope name value }

/-- Changes the nearest binding of a name. -/
def assign (m : Machine α) (scope : ScopeId) (name : String) (value : Value) : Machine α :=
  { m with arena := m.arena.assign scope name value }

/-- Appends a printed segment. -/
def printSegment (m : Machine α) (segment : String) : Machine α :=
  { m with output := m.output.push segment }

/-- Keeps a new closure and captures its scope; gives the closure's number. -/
def define (m : Machine α) (c : Closure α) : Nat × Machine α :=
  let arena := m.arena.capture c.scope
  match m.freeClosures with
  | id :: freeClosures =>
    (id, { m with arena, freeClosures, closures := m.closures.setIfInBounds id (some c) })
  | [] => (m.closures.size, { m with arena, closures := m.closures.push (some c) })

/-! ## Ending a scope -/

/-- The scope that a value's closure was defined in. -/
def capturedBy (m : Machine α) (v : Value) : Option ScopeId :=
  (v.closure?.bind m.closure?).map Closure.scope

/-- Empties a slot of closures. -/
def dropClosure (m : Machine α) (id : Nat) : Machine α :=
  { m with closures := m.closures.setIfInBounds id none, freeClosures := id :: m.freeClosures }

/-- Numbers of the closures that no value bound or held names. -/
def unnamed (m : Machine α) (held : List Value) : List Nat :=
  let named := (held ++ m.arena.values).filterMap Value.closure?
  (List.range m.closures.size).filter fun id => (m.closure? id).isSome && !named.contains id

/-- Empties the scopes that neither active scopes nor held values reach, then the closures that no
    value names. -/
def collect (m : Machine α) (held : List Value) : Machine α :=
  let (_, arena) := m.arena.collect (held.filterMap m.capturedBy) m.capturedBy
  let m := { m with arena }
  (m.unnamed held).foldl dropClosure m

/-- Ends the activation of a scope while `held` values are still needed. -/
def endScope (settings : Settings) (held : List Value) (id : ScopeId) (m : Machine α) :
    Machine α :=
  if settings.reclaim then
    let m := { m with arena := m.arena.release id }
    if m.arena.shouldCollect then m.collect held else m
  else { m with arena := m.arena.deactivate id }

end Machine

/-! ## Computations on a machine -/

/-- Why a computation gives no result: a fault of the program, or the bound on its steps. -/
inductive Halt (α : Type) where
  | fault (error : RuntimeError α)
  | outOfFuel

/-- A computation that changes a machine. -/
abbrev Eval (α β : Type) := EStateM (Halt α) (Machine α) β

namespace Eval

variable {α β : Type}

/-- Stops with a fault. -/
def fail (cause : RuntimeFault) (site : α) : Eval α β := throw (.fault ⟨cause, site⟩)

/-- A result that may be a fault, reported at `site`. -/
def lift (site : α) : Except RuntimeFault β → Eval α β
  | .ok b => pure b
  | .error cause => fail cause site

/-- Runs `p` one level deeper. -/
@[inline] def descend (settings : Settings) (site : α) (p : Eval α β) : Eval α β := do
  if (← get).depth < settings.limits.depth then
    modify fun m => { m with depth := m.depth + 1 }
    always (fun m => { m with depth := m.depth - 1 }) p
  else fail (.depthExceeded settings.limits.depth) site

/-- Runs `p` inside one more call. -/
@[inline] def inCall (p : Eval α β) : Eval α β := do
  modify fun m => { m with calls := m.calls + 1 }
  always (fun m => { m with calls := m.calls - 1 }) p

/-- Runs `p` in a new scope inside `parent` and ends the scope on every way out.  At its end the
    `held` values are still needed, and with a result also the values `needed` by it. -/
@[inline] def inScope (settings : Settings) (held : List Value) (parent : ScopeId)
    (needed : β → List Value) (p : ScopeId → Eval α β) : Eval α β := fun m =>
  let (id, arena) := m.arena.push parent
  match p id { m with arena } with
  | .ok b m => .ok b (m.endScope settings (needed b ++ held) id)
  | .error e m => .error e (m.endScope settings held id)

end Eval

end Scriptlet
