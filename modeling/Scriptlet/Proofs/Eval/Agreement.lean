/-
  Agreement: a machine that reclaims and one that does not, in the middle of the same run.

  1. **Agreement** (`Machine.Agree`) — the first machine is valid and mirrored in the second; the
     active scopes and the held values are given as pairs, one of each machine.
  2. **Steps** — what a program can ask of a machine (look up, bind, assign, define, open and end a
     scope, print, count) it can ask of both, with answers that correspond.
  3. **The crux (`Agree.endScope`)** — ending a scope may empty slots in the first machine and never
     does in the second; the pairs of active scopes and held values survive that.
-/
import Scriptlet.Proofs.Eval.Mirror

namespace Scriptlet.Machine

variable {α : Type} {m n : Machine α} {σ φ : Nat → Nat} {stack : List (ScopeId × ScopeId)}
  {held : List (Value × Value)} {i k s t : ScopeId} {v w : Value}

/-- `Agree` with the numberings made explicit. -/
structure AgreeVia (σ φ : Nat → Nat) (stack : List (ScopeId × ScopeId))
    (held : List (Value × Value)) (m n : Machine α) : Prop where
  valid : m.Valid (stack.map Prod.fst) (held.map Prod.fst)
  mirrors : Mirrors σ φ m n
  stack : ∀ q ∈ stack, q.2 = σ q.1
  held : ∀ q ∈ held, q.2 = q.1.rename φ

/-- The machines are at the same point of a run, with these scopes active, innermost first, and
    these values held. -/
def Agree (stack : List (ScopeId × ScopeId)) (held : List (Value × Value)) (m n : Machine α) :
    Prop :=
  ∃ σ φ, AgreeVia σ φ stack held m n

namespace AgreeVia

/-- An active scope and its counterpart. -/
theorem scope (h : AgreeVia σ φ stack held m n) (hs : (s, t) ∈ stack) :
    t = σ s ∧ (m.arena.scope? s).isSome :=
  ⟨h.stack (s, t) hs, h.valid.isSome_of_mem (List.mem_map_of_mem hs)⟩

/-- A held value and its counterpart. -/
theorem value (h : AgreeVia σ φ stack held m n) (hv : (v, w) ∈ held) :
    w = v.rename φ ∧ m.Names v :=
  ⟨h.held (v, w) hv, h.valid.held v (List.mem_map_of_mem hv)⟩

/-- Fewer values are held. -/
theorem weaken (h : AgreeVia σ φ stack held m n) {fewer : List (Value × Value)}
    (hsub : ∀ q ∈ fewer, q ∈ held) : AgreeVia σ φ stack fewer m n := by
  refine ⟨h.valid.weaken ?_, h.mirrors, h.stack, fun q hq => h.held q (hsub q hq)⟩
  intro u hu
  obtain ⟨q, hq, rfl⟩ := List.mem_map.mp hu
  exact List.mem_map_of_mem (hsub q hq)

/-- A value that names a closure, with its counterpart, may be held too. -/
theorem hold (h : AgreeVia σ φ stack held m n) (hv : m.Names v) :
    AgreeVia σ φ stack ((v, v.rename φ) :: held) m n := by
  refine ⟨h.valid.hold hv, h.mirrors, h.stack, fun q hq => ?_⟩
  rcases List.mem_cons.mp hq with rfl | hq
  · rfl
  · exact h.held q hq

end AgreeVia

/-! ## What ending a scope leaves -/

/-- A scope that is left after a release has its names and the scope around it. -/
theorem scope?_release {j : ScopeId} {a : Arena} {u : Scope}
    (hu : (a.release i).scope? j = some u) :
    ∃ u', a.scope? j = some u' ∧ u.bindings = u'.bindings ∧ u.parent = u'.parent := by
  unfold Arena.release at hu
  split at hu
  · exact ⟨u, hu, rfl, rfl⟩
  · split at hu
    · have hu : (a.update i fun s => { s with active := false }).scope? j = some u := hu
      rw [Arena.scope?_update] at hu
      split at hu
      · obtain ⟨u', hu', rfl⟩ := Option.map_eq_some_iff.mp hu
        exact ⟨u', hu', rfl, rfl⟩
      · exact ⟨u, hu, rfl, rfl⟩
    · rw [Arena.scope?_vacate] at hu
      split at hu
      · exact absurd hu (by simp)
      · exact ⟨u, hu, rfl, rfl⟩

/-- **A machine that ends a scope keeps its mirror**, whether it collects or not. -/
theorem Mirrors.endScope (h : Mirrors σ φ m n) (limits : Limits) (values : List Value)
    (i : ScopeId) : Mirrors σ φ (m.endScope ⟨limits, true⟩ values i) n := by
  -- releasing the scope takes away at most this one
  have hrelease : Mirrors σ φ { m with arena := m.arena.release i } n :=
    h.shrink (fun j u hu => scope?_release hu) (fun id c hc => hc) rfl rfl rfl
  unfold Machine.endScope
  rw [if_pos rfl]
  dsimp only
  split
  · refine hrelease.shrink ?_ ?_ ?_ ?_ ?_
    · -- a collection takes away scopes
      intro j u hu
      rw [scope?_collect] at hu
      split at hu
      · exact absurd hu (by simp)
      · exact ⟨u, hu, rfl, rfl⟩
    · -- and closures
      intro id c hc
      rw [closure?_collect] at hc
      split at hc
      · exact absurd hc (by simp)
      · exact hc
    all_goals
      rw [collect_eq]
      rfl
  · exact hrelease

namespace Agree

theorem weaken (h : Agree stack held m n) {fewer : List (Value × Value)}
    (hsub : ∀ q ∈ fewer, q ∈ held) : Agree stack fewer m n := by
  obtain ⟨σ, φ, h⟩ := h
  exact ⟨σ, φ, h.weaken hsub⟩

/-- A value that is no function corresponds to itself. -/
theorem hold_plain (h : Agree stack held m n) (hv : v.closure? = none) :
    Agree stack ((v, v) :: held) m n := by
  obtain ⟨σ, φ, h⟩ := h
  have hhold := h.hold (v := v) fun id hid => absurd (hv.symm.trans hid) (by simp)
  rw [Value.rename_of_closure? hv] at hhold
  exact ⟨σ, φ, hhold⟩

/-! ## Counting and printing -/

/-- The machines printed the same. -/
theorem output (h : Agree stack held m n) : n.output = m.output := by
  obtain ⟨σ, φ, h⟩ := h
  exact h.mirrors.output

theorem depth (h : Agree stack held m n) : n.depth = m.depth := by
  obtain ⟨σ, φ, h⟩ := h
  exact h.mirrors.depth

theorem calls (h : Agree stack held m n) : n.calls = m.calls := by
  obtain ⟨σ, φ, h⟩ := h
  exact h.mirrors.calls

/-- Output and counters may change in the same way. -/
theorem withCounters (h : Agree stack held m n) (output : Array String → Array String)
    (depth calls : Nat → Nat) : Agree stack held
      { m with output := output m.output, depth := depth m.depth, calls := calls m.calls }
      { n with output := output n.output, depth := depth n.depth, calls := calls n.calls } := by
  obtain ⟨σ, φ, hvalid, hmirrors, hstack, hheld⟩ := h
  refine ⟨σ, φ, ?_, ?_, hstack, hheld⟩
  · exact ⟨hvalid.arena, hvalid.table, hvalid.scopes, hvalid.bound, hvalid.held, hvalid.active,
      hvalid.nested⟩
  · exact ⟨hmirrors.rooted, hmirrors.table, hmirrors.scopes, hmirrors.closures, hmirrors.scopes_inj,
      hmirrors.closures_inj, hmirrors.global, congrArg output hmirrors.output,
      congrArg depth hmirrors.depth, congrArg calls hmirrors.calls⟩

/-! ## Values -/

/-- Held values differ in the numbers of closures at most. -/
theorem value (h : Agree stack held m n) (hv : (v, w) ∈ held) :
    w.type = v.type ∧ w.text = v.text ∧ w.isTruthy = v.isTruthy := by
  obtain ⟨σ, φ, h⟩ := h
  rw [(h.value hv).1]
  exact ⟨v.type_rename, v.text_rename, v.isTruthy_rename⟩

/-- A held value that is no function has itself as its counterpart. -/
theorem plain (h : Agree stack held m n) (hv : (v, w) ∈ held) (hplain : v.closure? = none) :
    w = v := by
  obtain ⟨σ, φ, h⟩ := h
  rw [(h.value hv).1, Value.rename_of_closure? hplain]

/-- A unary operator does not tell apart values that correspond. -/
theorem unary (h : Agree stack held m n) (hv : (v, w) ∈ held) (op : UnaryOp) :
    op.apply w = op.apply v := by
  obtain ⟨σ, φ, h⟩ := h
  rw [(h.value hv).1]
  exact op.apply_rename v

/-- Nor does a builtin. -/
theorem builtin (h : Agree stack held m n) (hv : (v, w) ∈ held) (b : Builtin) :
    b.apply w = b.apply v := by
  obtain ⟨σ, φ, h⟩ := h
  rw [(h.value hv).1]
  exact b.apply_rename v

/-- **Operators agree**, the equality of functions among them: the closures of held values are in
    the table, and there different closures have different counterparts. -/
theorem binary (h : Agree stack held m n) {v' w' : Value} (hv : (v, w) ∈ held)
    (hv' : (v', w') ∈ held) (op : BinaryOp) : op.apply w w' = op.apply v v' := by
  obtain ⟨σ, φ, h⟩ := h
  obtain ⟨rfl, hnames⟩ := h.value hv
  obtain ⟨rfl, hnames'⟩ := h.value hv'
  refine op.apply_rename v v' fun i j hi hj => ?_
  exact h.mirrors.closures_inj i j (hnames i hi) (hnames' j hj)

/-! ## Looking up and binding -/

/-- **Looking up a name** finds values that correspond, which may be held from then on. -/
theorem get? (h : Agree stack held m n) (hs : (s, t) ∈ stack) (x : String) :
    (m.arena.get? s x = none ∧ n.arena.get? t x = none) ∨
      ∃ v w, m.arena.get? s x = some v ∧ n.arena.get? t x = some w ∧
        Agree stack ((v, w) :: held) m n := by
  obtain ⟨σ, φ, h⟩ := h
  obtain ⟨rfl, hsome⟩ := h.scope hs
  have hroot := h.valid.arena.toRooted
  have hget := h.mirrors.get? hroot hsome x
  -- both chains lead through counterparts, so both find the name or neither does
  cases hv : m.arena.get? s x with
  | none =>
    rw [hv] at hget
    exact .inl ⟨rfl, hget⟩
  | some v =>
    rw [hv] at hget
    -- the value was bound in a scope of the machine, so it may be held
    refine .inr ⟨v, v.rename φ, rfl, hget, σ, φ, h.hold ?_⟩
    obtain ⟨j, hj, hbound⟩ := List.exists_of_findSome?_eq_some hv
    obtain ⟨u, hu⟩ := Option.isSome_iff_exists.mp ((hroot.path_chain hsome).isSome hj)
    rw [Arena.bindings, hu] at hbound
    exact h.valid.bound j u hu v (Bindings.get?_mem_values hbound)

/-- **Declaring a name** with values that correspond. -/
theorem declare (h : Agree stack held m n) (hs : (s, t) ∈ stack) (hv : (v, w) ∈ held)
    (x : String) : Agree stack held (m.declare s x v) (n.declare t x w) := by
  obtain ⟨σ, φ, h⟩ := h
  obtain ⟨rfl, hsome⟩ := h.scope hs
  obtain ⟨rfl, -⟩ := h.value hv
  exact ⟨σ, φ, h.valid.declare (List.mem_map_of_mem hv) s x, h.mirrors.declare hsome x v, h.stack,
    h.held⟩

/-- **Assigning to a name** values that correspond. -/
theorem assign (h : Agree stack held m n) (hs : (s, t) ∈ stack) (hv : (v, w) ∈ held)
    (x : String) : Agree stack held (m.assign s x v) (n.assign t x w) := by
  obtain ⟨σ, φ, h⟩ := h
  obtain ⟨rfl, hsome⟩ := h.scope hs
  obtain ⟨rfl, -⟩ := h.value hv
  exact ⟨σ, φ, h.valid.declare (List.mem_map_of_mem hv) _ x,
    h.mirrors.assign h.valid.arena.toRooted hsome x v, h.stack, h.held⟩

/-! ## Defining a function -/

/-- **Defining a function**: the two new values correspond. -/
theorem define (h : Agree stack held m n) (hs : (s, t) ∈ stack) (params : List String)
    (body : List (Stmt α)) (f : String) :
    Agree stack
      ((.function (m.define ⟨params, body, s⟩).1 f, .function (n.define ⟨params, body, t⟩).1 f)
        :: held)
      (m.define ⟨params, body, s⟩).2 (n.define ⟨params, body, t⟩).2 := by
  obtain ⟨σ, φ, h⟩ := h
  obtain ⟨rfl, hsome⟩ := h.scope hs
  rw [define_eq, define_eq]
  refine ⟨σ, _, h.valid.defined (c := ⟨params, body, s⟩) hsome f,
    h.mirrors.defined h.valid ⟨params, body, s⟩, h.stack, fun q hq => ?_⟩
  rcases List.mem_cons.mp hq with rfl | hq
  · exact congrArg (Value.function · f) (renumber_self φ _ _).symm
  · -- the closures held before have other numbers
    rw [h.held q hq]
    refine Value.rename_congr fun id hid => (renumber_of_ne ?_).symm
    rintro rfl
    have hnames := (h.value hq).2 _ hid
    rw [(h.valid.closure?_defined ⟨params, body, s⟩).1] at hnames
    exact absurd hnames (by simp)

/-! ## Opening a scope -/

/-- **Opening a scope**: the two new slots correspond. -/
theorem via_opening (h : AgreeVia σ φ stack held m n) (hs : (m.arena.scope? s).isSome) :
    Agree ((m.arena.nextSlot s, n.arena.nextSlot (σ s)) :: stack) held (m.opening s)
      (n.opening (σ s)) := by
  refine ⟨_, φ, h.valid.opening hs, h.mirrors.opening h.valid hs, fun q hq => ?_, h.held⟩
  rcases List.mem_cons.mp hq with rfl | hq
  · exact (renumber_self σ _ _).symm
  · rw [h.stack q hq]
    refine (renumber_of_ne ?_).symm
    intro heq
    have hsome := (h.scope hq).2
    rw [heq, (h.valid.arena.toRooted.scope?_pushed s).1] at hsome
    exact absurd hsome (by simp)

/-- A scope inside an active one. -/
theorem opening (h : Agree stack held m n) (hs : (s, t) ∈ stack) :
    Agree ((m.arena.nextSlot s, n.arena.nextSlot t) :: stack) held (m.opening s)
      (n.opening t) := by
  obtain ⟨σ, φ, h⟩ := h
  obtain ⟨rfl, hsome⟩ := h.scope hs
  exact via_opening h hsome

/-- A held function: its closure is in the table, and a scope may be opened inside the one it was
    defined in. -/
theorem callee (h : Agree stack held m n) {id : Nat} {f : String}
    (hv : (.function id f, w) ∈ held) :
    ∃ id' c d, w = .function id' f ∧ m.closure? id = some c ∧ n.closure? id' = some d ∧
      d.params = c.params ∧ d.body = c.body ∧
      Agree ((m.arena.nextSlot c.scope, n.arena.nextSlot d.scope) :: stack) held
        (m.opening c.scope) (n.opening d.scope) := by
  obtain ⟨σ, φ, h⟩ := h
  obtain ⟨rfl, hnames⟩ := h.value hv
  obtain ⟨c, hc⟩ := Option.isSome_iff_exists.mp (hnames id rfl)
  obtain ⟨u, hu, -⟩ := Arena.isCaptured_eq_true.mp (h.valid.scopes id c hc)
  refine ⟨φ id, c, _, rfl, hc, h.mirrors.closures id c hc, rfl, rfl, via_opening h ?_⟩
  rw [hu]
  rfl

theorem nextSlot_ne_global (h : Agree stack held m n) (p : ScopeId) :
    m.arena.nextSlot p ≠ Arena.global := by
  obtain ⟨σ, φ, h⟩ := h
  exact h.valid.arena.nextSlot_ne_global p

/-! ## Ending a scope -/

/-- **The innermost scope ends in both machines**, while the held values are needed. -/
theorem endScope (h : Agree ((i, k) :: stack) held m n) (hi : i ≠ Arena.global) (limits : Limits) :
    Agree stack held (m.endScope ⟨limits, true⟩ (held.map Prod.fst) i)
      (n.endScope ⟨limits, false⟩ (held.map Prod.snd) k) := by
  obtain ⟨σ, φ, h⟩ := h
  refine ⟨σ, φ, h.valid.endScope hi limits, ?_, ?_, h.held⟩
  · exact (h.mirrors.endScope limits _ i).deactivate k
  · exact fun q hq => h.stack q (List.mem_cons_of_mem _ hq)

end Agree

end Scriptlet.Machine
