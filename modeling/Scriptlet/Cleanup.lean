/-
  Cleanup: a computation followed by a tidy-up of the state that happens on every way out.
-/

namespace Scriptlet

variable {ε σ β : Type}

/-- Runs `p` and then changes the state by `tidy`, whether `p` ends with a result or an error. -/
@[inline] def always (tidy : σ → σ) (p : EStateM ε σ β) : EStateM ε σ β := fun s =>
  match p s with
  | .ok b s => .ok b (tidy s)
  | .error e s => .error e (tidy s)

end Scriptlet
