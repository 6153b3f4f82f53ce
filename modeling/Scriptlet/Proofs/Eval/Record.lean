/-
  The record: a run without reclamation, from which nothing is lost.

  1. **Operators** — no operator and no built-in function reports a missing closure
     (`RuntimeFault.not_dangling`).
  2. **The record grows** (`Machine.Kept`) — without reclamation no step empties or overwrites a
     slot, so what a number stands for never changes.
  3. **Genuine points** (`Machine.Agree.genuine`) — where the machine agrees with the record, every
     function value stands for the closure it was made with.
  4. **Recorded runs** (`Watch.Recorded`) — the points of a run are genuine one by one in another
     run from which nothing was lost; what a step must do to keep this.
-/
import Mathlib.Data.List.Forall2
import Scriptlet.Proofs.Eval.Points

namespace Scriptlet

variable {α : Type}

/-- Operators and built-in functions never miss a closure. -/
theorem RuntimeFault.not_dangling {cause : RuntimeFault} (h : cause.blamesOperands = true) :
    cause.isDangling = false := by
  cases cause with
  | typeMismatch _ _ _ | divisionByZero | integerOverflow => rfl
  | _ => exact nomatch h

/-! ## The record grows -/

namespace Machine

variable {n n' n'' : Machine α}

theorem Kept.refl (n : Machine α) : n.Kept n := ⟨fun _ _ h => h, fun _ _ h => h, id⟩

theorem Kept.trans (h : n.Kept n') (h' : n'.Kept n'') : n.Kept n'' :=
  ⟨fun id c hc => h'.closures id c (h.closures id c hc),
    fun i q hq => h'.links i q (h.links i q hq), fun hfree => h'.free (h.free hfree)⟩

/-- Only the arena differs, and not in its links. -/
theorem Kept.of_links (hlinks : ∀ i, n'.arena.link? i = n.arena.link? i)
    (hclosures : n'.closures = n.closures) (hfree : n'.freeClosures = n.freeClosures) :
    n.Kept n' := by
  refine ⟨fun id c hc => ?_, fun i q hq => (hlinks i).trans hq, fun h => hfree.trans h⟩
  rw [closure?, hclosures]
  exact hc

theorem kept_declare (n : Machine α) (i : ScopeId) (x : String) (v : Value) :
    n.Kept (n.declare i x v) :=
  .of_links (fun _ => Arena.link?_update fun _ => rfl) rfl rfl

theorem kept_assign (n : Machine α) (i : ScopeId) (x : String) (v : Value) :
    n.Kept (n.assign i x v) :=
  .of_links (fun _ => Arena.link?_update fun _ => rfl) rfl rfl

theorem kept_bindParams (scope : ScopeId) (params : List String) (values : List Value)
    (n : Machine α) : n.Kept (Eval.bindParams scope params values n) :=
  Eval.bindParams_keeps (fun k x v h => h.trans (k.kept_declare scope x v)) params values (.refl n)

/-- A new closure fills a slot that was empty. -/
theorem kept_defined (h : Slots.FreeList n.closures n.freeClosures) (c : Closure α) :
    n.Kept (n.defined c) := by
  obtain ⟨hempty, hclosure, -⟩ := h.fill c
  refine ⟨fun id d hd => ?_, fun i q hq => (Arena.link?_capture _ _ i).trans hq, fun hfree => ?_⟩
  · have hne : id ≠ n.nextClosure c := by
      rintro rfl
      exact absurd (hempty.symm.trans hd) (by simp)
    exact (hclosure id).trans ((if_neg hne).trans hd)
  · show (Slots.fill n.closures n.freeClosures c).2.2 = []
    rw [hfree]
    rfl

/-- A new scope fills a slot that was empty. -/
theorem kept_opening (h : n.arena.Rooted) (parent : ScopeId) : n.Kept (n.opening parent) := by
  obtain ⟨hempty, hscope⟩ := h.scope?_pushed parent
  refine ⟨fun _ _ hc => hc, fun i q hq => ?_, id⟩
  have hne : i ≠ n.arena.nextSlot parent := by
    rintro rfl
    rw [Arena.link?, hempty] at hq
    exact absurd hq (by simp)
  show (n.arena.pushed parent).link? i = some q
  rw [Arena.link?, hscope, if_neg hne]
  exact hq

/-- Without reclamation, ending a scope empties nothing. -/
theorem kept_endScope (limits : Limits) (values : List Value) (i : ScopeId) (n : Machine α) :
    n.Kept (n.endScope (.keeping limits) values i) := by
  refine .of_links (fun j => ?_) rfl rfl
  show (n.arena.deactivate i).link? j = n.arena.link? j
  unfold Arena.deactivate
  split
  · rfl
  · exact Arena.link?_update fun _ => rfl

/-! ## Points of machines that agree -/

section Agreement

variable {m : Machine α} {stack : List (ScopeId × ScopeId)} {held : List (Value × Value)}

theorem Agree.rooted (h : Agree stack held m n) : n.arena.Rooted := by
  obtain ⟨σ, φ, h⟩ := h
  exact h.mirrors.rooted

theorem Agree.table (h : Agree stack held m n) : Slots.FreeList n.closures n.freeClosures := by
  obtain ⟨σ, φ, h⟩ := h
  exact h.mirrors.table

theorem AgreeVia.names {σ φ : Nat → Nat} (h : AgreeVia σ φ stack held m n) {v : Value}
    (hv : v ∈ held.map Prod.fst ++ m.arena.values) : m.Names v := by
  rcases List.mem_append.mp hv with hv | hv
  · exact h.valid.held v hv
  · obtain ⟨i, s, hs, hv⟩ := Arena.exists_of_mem_values hv
    exact h.valid.bound i s hs v hv

/-- **Where machines agree, a point is genuine.** -/
theorem Agree.genuine (h : Agree stack held m n) {s t : ScopeId} (hs : (s, t) ∈ stack)
    (halt : Option (Halt α)) (hhalt : ∀ e, halt = some e → e.isDangling = false) :
    ∃ σ φ, Point.Genuine σ φ ⟨m, held.map Prod.fst, s, halt⟩ ⟨n, held.map Prod.snd, t, halt⟩ := by
  obtain ⟨σ, φ, h⟩ := h
  -- the numbering that shows the agreement is the one of the point
  refine ⟨σ, φ, h.mirrors, ?_, (h.scope hs).1, rfl, ?_, ?_, h.valid.table, hhalt⟩
  · show held.map Prod.snd = (held.map Prod.fst).map (Value.rename φ)
    rw [List.map_map]
    exact List.map_congr_left fun q hq => h.held q hq
  · -- a function held is callable, and its closure has the path of its counterpart
    intro v hv id hid
    obtain ⟨c, hc⟩ := Option.isSome_iff_exists.mp (h.names hv id hid)
    obtain ⟨u, hu, -⟩ := Arena.isCaptured_eq_true.mp (h.valid.scopes id c hc)
    have hpath := h.valid.arena.toRooted.path_chain (i := c.scope) (by rw [hu]; rfl)
    exact ⟨c, _, hc, h.mirrors.closures id c hc, hpath, h.mirrors.path hpath⟩
  · -- two functions are equal where their closures are one
    intro v hv w hw i j hi hj
    obtain ⟨f, rfl⟩ := Value.eq_function hi
    obtain ⟨g, rfl⟩ := Value.eq_function hj
    have hequals : (Value.function i f).equals (.function j g) = true ↔ i = j := beq_iff_eq
    rw [hequals]
    refine ⟨congrArg φ, ?_⟩
    exact h.mirrors.closures_inj i j (h.names hv i hi) (h.names hw j hj)

end Agreement

end Machine

/-! ## Recorded runs -/

namespace Watch

variable {w w' v v' : Watch α}

/-- The run `w'` is the record of the run `w`: the points passed so far are genuine in it one by
    one, nothing was emptied or overwritten since any of them, and no number was ever free. -/
structure Recorded (w w' : Watch α) : Prop where
  genuine : List.Forall₂ (fun pt record => ∃ σ φ, Point.Genuine σ φ pt record) w.points w'.points
  kept : ∀ record ∈ w'.points, record.machine.Kept w'.machine
  between : w'.points.Pairwise fun later record => record.machine.Kept later.machine
  full : w'.machine.freeClosures = []
  filled : ∀ record ∈ w'.points, record.machine.freeClosures = []

/-- Two runs that begin. -/
theorem recorded_start {m n : Machine α} (hfull : n.freeClosures = []) :
    Recorded (start m) (start n) :=
  ⟨.nil, fun _ h => absurd h List.not_mem_nil, .nil, hfull, fun _ h => absurd h List.not_mem_nil⟩

/-- A step that passes no point, and loses nothing of the record. -/
theorem Recorded.step (h : Recorded w w') (hpoints : v.points = w.points)
    (hpoints' : v'.points = w'.points) (hkept : w'.machine.Kept v'.machine) : Recorded v v' := by
  refine ⟨?_, ?_, ?_, hkept.free h.full, ?_⟩
  · rw [hpoints, hpoints']
    exact h.genuine
  · rw [hpoints']
    exact fun record hrecord => (h.kept record hrecord).trans hkept
  · rw [hpoints']
    exact h.between
  · rw [hpoints']
    exact h.filled

/-- A genuine point is passed. -/
theorem Recorded.point (h : Recorded w w') {held held' : List Value} {s t : ScopeId}
    {halt halt' : Option (Halt α)}
    (hgenuine : ∃ σ φ, Point.Genuine σ φ ⟨w.machine, held, s, halt⟩ ⟨w'.machine, held', t, halt'⟩) :
    Recorded (w.point held s halt) (w'.point held' t halt') where
  genuine := .cons hgenuine h.genuine
  kept := List.forall_mem_cons.mpr ⟨.refl _, h.kept⟩
  between := .cons h.kept h.between
  full := h.full
  filled := List.forall_mem_cons.mpr ⟨h.full, h.filled⟩

end Watch

end Scriptlet
