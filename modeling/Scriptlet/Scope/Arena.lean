/-
  The arena: every scope of a running program, each with a link to the scope around it.

  1. **Slots** — a scope lives in a numbered slot; slot 0 is the global scope.  Empty slots are on
     a stack, and the one emptied last is filled first, so a scope may have a higher number than a
     scope inside it.
  2. **Life of a scope** — `push` opens it, `release` ends its activation.  A scope that no
     function value has captured is emptied at once; a captured one waits for a collection.
  3. **Capture** — `capture` marks a scope and all scopes around it.  It stops at the first scope
     already marked, because whatever is around a captured scope is captured too.
-/
import Scriptlet.Scope.Bindings

namespace Scriptlet

/-- The number of a scope's slot. -/
abbrev ScopeId := Nat

/-- A scope. -/
structure Scope where
  bindings : Bindings
  /-- The scope around this one; none for the global scope. -/
  parent : Option ScopeId
  /-- Opened and not yet released. -/
  active : Bool
  /-- Reachable from a function value, now or earlier. -/
  captured : Bool
  deriving DecidableEq

/-- All scopes of a running program. -/
structure Arena where
  slots : Array (Option Scope)
  /-- Empty slots, the next one to fill first. -/
  free : List ScopeId
  /-- Captured scopes released since the last collection. -/
  retained : Nat
  /-- Number of retained scopes at which a collection is due. -/
  threshold : Nat

namespace Arena

/-- Fewest retained scopes that make a collection due. -/
def minThreshold : Nat := 64

/-- The global scope. -/
def global : ScopeId := 0

/-- The arena with an empty global scope only. -/
def empty : Arena := ⟨#[some ⟨[], none, true, true⟩], [], 0, minThreshold⟩

/-! ## Looking -/

/-- The scope in a slot. -/
def scope? (a : Arena) (id : ScopeId) : Option Scope := (a.slots[id]?).join

/-- The scope around a scope. -/
def parent? (a : Arena) (id : ScopeId) : Option ScopeId := (a.scope? id).bind Scope.parent

/-- The bindings of a scope itself. -/
def bindings (a : Arena) (id : ScopeId) : Bindings := ((a.scope? id).map Scope.bindings).getD []

/-- Whether a function value has captured the scope. -/
def isCaptured (a : Arena) (id : ScopeId) : Bool := ((a.scope? id).map Scope.captured).getD false

/-- At most `bound` scopes on the way from `id` outward. -/
def outward (a : Arena) : Nat → ScopeId → List ScopeId
  | 0, _ => []
  | bound + 1, id =>
    match a.parent? id with
    | none => [id]
    | some parent => id :: a.outward bound parent

/-- The scopes from `id` outward to the global scope.  No more of them than there are slots. -/
def chain (a : Arena) (id : ScopeId) : List ScopeId := a.outward a.slots.size id

/-- The value of a name, seen from a scope. -/
def get? (a : Arena) (id : ScopeId) (name : String) : Option Value :=
  (a.chain id).findSome? fun i => (a.bindings i).get? name

/-- The nearest scope from `id` outward that binds a name. -/
def definer? (a : Arena) (id : ScopeId) (name : String) : Option ScopeId :=
  (a.chain id).find? fun i => ((a.bindings i).get? name).isSome

/-- Number of scopes from `id` outward, both ends included. -/
def depth (a : Arena) (id : ScopeId) : Nat := (a.chain id).length

/-- Number of slots in use. -/
def live (a : Arena) : Nat := a.slots.size - a.free.length

/-- Every bound value, in the order of slots. -/
def values (a : Arena) : List Value :=
  a.slots.toList.flatMap fun slot => (slot.map fun s => s.bindings.values).getD []

/-- Whether enough captured scopes were released for a collection. -/
def shouldCollect (a : Arena) : Bool := a.threshold ≤ a.retained

/-! ## Changing -/

/-- Changes the scope in a slot. -/
def update (a : Arena) (id : ScopeId) (f : Scope → Scope) : Arena :=
  { a with slots := a.slots.modify id (Option.map f) }

/-- Opens a scope inside `parent`. -/
def push (a : Arena) (parent : ScopeId) : ScopeId × Arena :=
  let scope : Scope := ⟨[], some parent, true, false⟩
  match a.free with
  | id :: free => (id, { a with slots := a.slots.setIfInBounds id (some scope), free })
  | [] => (a.slots.size, { a with slots := a.slots.push (some scope) })

/-- Empties a slot. -/
def vacate (a : Arena) (id : ScopeId) : Arena :=
  { a with slots := a.slots.setIfInBounds id none, free := id :: a.free }

/-- Marks a scope as no longer active. -/
def deactivate (a : Arena) (id : ScopeId) : Arena :=
  if id = global then a else a.update id fun s => { s with active := false }

/-- Ends the activation that opened a scope; the global scope stays. -/
def release (a : Arena) (id : ScopeId) : Arena :=
  if id = global then a
  else if a.isCaptured id then
    { a.update id fun s => { s with active := false } with retained := a.retained + 1 }
  else a.vacate id

/-- Marks a scope and those around it as reachable from a function value. -/
def capture (a : Arena) (id : ScopeId) : Arena :=
  ((a.chain id).takeWhile fun i => !a.isCaptured i).foldl
    (fun a i => a.update i fun s => { s with captured := true }) a

/-- Binds a name in a scope itself. -/
def declare (a : Arena) (id : ScopeId) (name : String) (value : Value) : Arena :=
  a.update id fun s => { s with bindings := s.bindings.put name value }

/-- Changes the nearest binding of a name, or binds it in the scope itself if there is none. -/
def assign (a : Arena) (id : ScopeId) (name : String) (value : Value) : Arena :=
  a.declare ((a.definer? id name).getD id) name value

end Arena

end Scriptlet
