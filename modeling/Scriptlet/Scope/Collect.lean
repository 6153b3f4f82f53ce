/-
  Collection: emptying the slots of scopes that nothing can reach any more.

  A scope is kept if it is active, or reachable from an active scope or a root along two kinds of
  links: to the scope around it, and to the scope captured by a value bound in it.  `mark` follows
  the links with a list of scopes still to visit.  It ends because a visit either marks one more
  scope or shortens the list.
-/
import Scriptlet.Scope.Arena

namespace Scriptlet

namespace Arena

/-- The scopes one link away from a scope; `capturedBy` gives the scope that a value holds. -/
def neighbours (capturedBy : Value → Option ScopeId) (s : Scope) : List ScopeId :=
  s.parent.toList ++ s.bindings.values.filterMap capturedBy

/-- Marks what is reachable from the `pending` scopes, past scopes already marked. -/
def mark (a : Arena) (capturedBy : Value → Option ScopeId) (pending : List ScopeId)
    (marked : Array Bool) : Array Bool :=
  match pending with
  | [] => marked
  | id :: pending =>
    match a.scope? id with
    | none => a.mark capturedBy pending marked
    | some s =>
      if h : ∃ bound : id < marked.size, marked[id] = false then
        a.mark capturedBy (neighbours capturedBy s ++ pending) (marked.set id true h.1)
      else a.mark capturedBy pending marked
termination_by (marked.count false, pending.length)
decreasing_by
  · exact Prod.Lex.right _ (by simp)
  · apply Prod.Lex.left
    obtain ⟨bound, unmarked⟩ := h
    have positive : 0 < marked.count false :=
      Array.count_pos_iff.mpr (unmarked ▸ Array.getElem_mem bound)
    rw [Array.count_set, unmarked, if_pos (by decide), if_neg (by decide)]
    omega
  · exact Prod.Lex.right _ (by simp)

/-- The active scopes, in the order of slots. -/
def activeScopes (a : Arena) : List ScopeId :=
  (List.range a.slots.size).filter fun id => ((a.scope? id).map Scope.active).getD false

/-- For every slot, whether its scope is reachable from an active scope or a root. -/
def reached (a : Arena) (roots : List ScopeId) (capturedBy : Value → Option ScopeId) :
    Array Bool :=
  a.mark capturedBy (roots ++ a.activeScopes) (Array.replicate a.slots.size false)

/-- The released scopes that are not reachable, in the order of slots. -/
def garbage (a : Arena) (roots : List ScopeId) (capturedBy : Value → Option ScopeId) :
    List ScopeId :=
  let kept := a.reached roots capturedBy
  (List.range a.slots.size).filter fun id =>
    match a.scope? id with
    | none => false
    | some s => !s.active && !kept.getD id false

/-- Empties the slots of unreachable scopes, and sets the threshold for the next collection to the
    number of scopes left.  Also gives the number of slots emptied. -/
def collect (a : Arena) (roots : List ScopeId) (capturedBy : Value → Option ScopeId) :
    Nat × Arena :=
  let freed := a.garbage roots capturedBy
  let swept := freed.foldl vacate a
  (freed.length, { swept with retained := 0, threshold := max swept.live minThreshold })

end Arena

end Scriptlet
