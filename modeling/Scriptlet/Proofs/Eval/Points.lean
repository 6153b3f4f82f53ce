/-
  Points of a run, and what makes the function values at a point genuine.

  1. **Points** (`Machine.points`) — the moments at which the expressions, statements and programs of
     a run return, in order: the machine then, the scope, and the values that the evaluation in
     progress still needs, the result among them.
  2. **The record** — the same run without reclamation.  There no slot is ever emptied, so the
     number of a closure tells the execution that defined the function, and the number of a scope
     the time it was opened (`Machine.Kept`).
  3. **Genuine points** (`Point.Genuine`) — every scope, closure and value in use has its
     counterpart in the record, and every function value names the counterpart of its own closure.
-/
import Scriptlet.Proofs.Eval.Watch

namespace Scriptlet

variable {α : Type}

/-! ## Points -/

/-- The values that exist at a point. -/
def Point.values (pt : Point α) : List Value := pt.held ++ pt.machine.arena.values

/-- The points of programs run one after another on a machine, each with a bound on its steps, also
    after faults.  The last point of each program is its end. -/
def Machine.points (settings : Settings) (m : Machine α) (steps : List (Nat × Program α)) :
    List (Point α) :=
  ((Watch.start m).runAll settings steps).2.points.reverse

-- A definition and a call: the points are the definition, the name, the literal, the `return`, the
-- call and the end of the program.  The function is held while the body runs.
example :
    let program : Program Unit :=
      ⟨[.function () "f" [] [.ret () (some (.literal () (.bool true)))],
        .expr () (.call () (.name () "f") [])]⟩
    (Machine.initial.points {} [(4, program)]).map Point.held =
      [[.nil], [.function 0 "f", .nil], [.bool true, .function 0 "f", .nil],
        [.bool true, .function 0 "f", .nil], [.bool true, .nil], [.bool true]] := by
  rfl

/-! ## Genuine points -/

/-- A call found no closure for a function value. -/
def RuntimeFault.isDangling : RuntimeFault → Bool
  | .notCallable .function => true
  | _ => false

def Halt.isDangling : Halt α → Bool
  | .fault e => e.cause.isDangling
  | .outOfFuel => false

/-- Nothing was emptied or overwritten between two machines: closures stand for what they stood for,
    scopes lie in the scopes they lay in, and no number has become free. -/
structure Machine.Kept (n n' : Machine α) : Prop where
  closures : ∀ id c, n.closure? id = some c → n'.closure? id = some c
  links : ∀ i q, n.arena.link? i = some q → n'.arena.link? i = some q
  free : n.freeClosures = [] → n'.freeClosures = []

/-- A point seen in its record, in which the scope `i` has the number `σ i` and the closure `id` the
    number `φ id`. -/
structure Point.Genuine (σ φ : Nat → Nat) (pt record : Point α) : Prop where
  /-- Every scope and closure in use has its own counterpart, with the same contents. -/
  mirrors : Machine.Mirrors σ φ pt.machine record.machine
  held : record.held = pt.held.map (Value.rename φ)
  scope : record.scope = σ pt.scope
  halt : record.halt = pt.halt
  /-- A function value that exists names the counterpart of the closure that its own counterpart
      names, and the scopes around that closure are in use and have their counterparts around it. -/
  closure : ∀ v ∈ pt.values, ∀ id, v.closure? = some id → ∃ c chain,
    pt.machine.closure? id = some c ∧
    record.machine.closure? (φ id) = some { c with scope := σ c.scope } ∧
    pt.machine.arena.Path c.scope chain ∧ record.machine.arena.Path (σ c.scope) (chain.map σ)
  /-- Function values are equal if and only if their closures have one number in the record. -/
  equal : ∀ v ∈ pt.values, ∀ w ∈ pt.values, ∀ i j, v.closure? = some i → w.closure? = some j →
    (v.equals w = true ↔ φ i = φ j)
  /-- The list of free closures names each empty slot exactly once. -/
  free : Slots.FreeList pt.machine.closures pt.machine.freeClosures
  callable : ∀ e, pt.halt = some e → e.isDangling = false

end Scriptlet
