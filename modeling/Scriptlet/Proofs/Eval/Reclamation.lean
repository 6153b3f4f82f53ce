/-
  Reclamation: nobody can tell whether slots are used again.

  1. **Observation** (`Observation`) — what there is to see of a machine after a program has run on
     it: how the run ended, everything printed, the global bindings in order, and which of the bound
     values are equal.
  2. **Programs** (`run_agree`) — machines that agree between programs run the same program to the
     same end, and agree again.
  3. **The result (`observe_reclaiming`)** — by induction on the programs run one after another, a
     machine that uses slots again and one that never empties a slot are observed to do the same.
-/
import Scriptlet.Proofs.Eval.Simulation

namespace Scriptlet

/-! ## Observation -/

/-- What is seen of a value. -/
structure Appearance where
  type : ValueType
  text : String
  deriving Repr, DecidableEq

def Value.appearance (v : Value) : Appearance := ⟨v.type, v.text⟩

/-- How a run is seen to end. -/
inductive Ending (α : Type) where
  | value (a : Appearance)
  | fault (error : RuntimeError α)
  | outOfFuel

def Outcome.ending {α : Type} : Outcome α → Ending α
  | .value v => .value v.appearance
  | .fault e => .fault e
  | .outOfFuel => .outOfFuel

/-- What is seen after a run. -/
structure Observation (α : Type) where
  ending : Ending α
  /-- Everything printed so far, oldest first. -/
  output : List String
  /-- Global names with their values, in the order they were declared. -/
  globals : List (String × Appearance)
  /-- For each global value, which global values it is equal to. -/
  equalities : List (List Bool)

/-- For each value of a list, which of them it is equal to. -/
def Value.equalities (vs : List Value) : List (List Bool) := vs.map fun v => vs.map v.equals

theorem Value.appearance_rename {f : Nat → Nat} (v : Value) :
    (v.rename f).appearance = v.appearance := by
  rw [appearance, appearance, type_rename, text_rename]

theorem Value.equalities_rename {f : Nat → Nat} {vs : List Value}
    (h : ∀ v ∈ vs, ∀ w ∈ vs, ∀ i j, v.closure? = some i → w.closure? = some j → f i = f j → i = j) :
    equalities (vs.map (rename f)) = equalities vs := by
  unfold equalities
  rw [List.map_map]
  refine List.map_congr_left fun v hv => ?_
  show (vs.map (rename f)).map (v.rename f).equals = vs.map v.equals
  rw [List.map_map]
  exact List.map_congr_left fun w hw => equals_rename v w (h v hv w hw)

theorem Bindings.values_rename {f : Nat → Nat} (b : Bindings) :
    (b.rename f).values = b.values.map (Value.rename f) := by
  unfold rename values
  rw [List.map_map, List.map_map]
  rfl

namespace Machine

variable {α : Type} {limits : Limits} {m n : Machine α}

/-- What is seen of a machine after a run that ended with `outcome`. -/
def observation (m : Machine α) (outcome : Outcome α) : Observation α :=
  let globals := m.arena.bindings Arena.global
  { ending := outcome.ending
    output := m.output.toList
    globals := globals.map fun entry => (entry.1, entry.2.appearance)
    equalities := Value.equalities globals.values }

/-- What is seen after each of several programs run one after another, each with a bound on its
    steps, also after faults. -/
def observe (settings : Settings) (m : Machine α) (steps : List (Nat × Program α)) :
    List (Observation α) :=
  (m.runs settings steps).map fun (outcome, m) => m.observation outcome

/-! ## The first machine -/

/-- A machine that binds nothing. -/
def blank : Machine α := ⟨Arena.empty, #[], [], #[], 0, 0⟩

variable {stack : List (ScopeId × ScopeId)} {held : List (Value × Value)}

theorem valid_blank : (blank : Machine α).Valid [Arena.global] [] where
  arena := Arena.valid_empty
  table := Slots.freeList_empty
  scopes := by
    intro id c hc
    exact absurd hc (by simp [blank, closure?])
  bound := by
    intro i s hs v hv
    obtain ⟨-, rfl⟩ := Arena.scope?_empty hs
    exact absurd hv List.not_mem_nil
  held := fun v hv => absurd hv List.not_mem_nil
  -- the global scope is the only one, and it is active
  active := by
    intro i
    constructor
    · intro hi
      obtain rfl := List.mem_singleton.mp hi
      exact ⟨_, rfl, rfl⟩
    · rintro ⟨s, hs, -⟩
      exact List.mem_singleton.mpr (Arena.scope?_empty hs).1
  nested := List.pairwise_singleton _ _

theorem mirrors_blank : Mirrors id id (blank : Machine α) blank where
  rooted := Arena.valid_empty.toRooted
  table := Slots.freeList_empty
  scopes := by
    intro i s hs
    obtain ⟨rfl, rfl⟩ := Arena.scope?_empty hs
    exact ⟨_, rfl, rfl, rfl⟩
  closures := by
    intro id c hc
    exact absurd hc (by simp [blank, closure?])
  scopes_inj := fun _ _ _ _ h => h
  closures_inj := fun _ _ _ _ h => h
  global := rfl
  output := rfl
  depth := rfl
  calls := rfl

/-- Built-in functions are bound in both machines alike. -/
theorem Agree.builtins (h : Agree stack held m n) (hs : (Arena.global, Arena.global) ∈ stack)
    (bs : List Builtin) : Agree stack held
      (bs.foldl (fun m b => m.declare Arena.global b.name (.builtin b)) m)
      (bs.foldl (fun n b => n.declare Arena.global b.name (.builtin b)) n) := by
  induction bs generalizing m n with
  | nil => exact h
  | cons b bs ih =>
    have hhold : Agree stack ((.builtin b, .builtin b) :: held) m n := h.hold_plain rfl
    have hdeclare := hhold.declare hs (List.mem_cons_self ..) b.name
    exact ih (hdeclare.weaken fun q hq => List.mem_cons_of_mem _ hq)

theorem agree_initial : Agree [(Arena.global, Arena.global)] [] (initial : Machine α) initial := by
  have hblank : Agree [(Arena.global, Arena.global)] [] (blank : Machine α) blank := by
    refine ⟨id, id, valid_blank, mirrors_blank, fun q hq => ?_, fun q hq => ?_⟩
    · rw [List.mem_singleton.mp hq]
      rfl
    · exact absurd hq List.not_mem_nil
  exact hblank.builtins (List.mem_singleton.mpr rfl) Builtin.all

/-! ## What agreement shows -/

theorem Agree.appearance (h : Agree stack held m n) {v w : Value} (hv : (v, w) ∈ held) :
    w.appearance = v.appearance := by
  obtain ⟨htype, htext, -⟩ := h.value hv
  rw [Value.appearance, Value.appearance, htype, htext]

/-- The global bindings have counterparts in order. -/
theorem AgreeVia.globals {σ φ : Nat → Nat} (h : AgreeVia σ φ stack held m n) :
    n.arena.bindings Arena.global = (m.arena.bindings Arena.global).rename φ ∧
      ∀ v ∈ (m.arena.bindings Arena.global).values, m.Names v := by
  obtain ⟨s, hs, -⟩ := h.valid.arena.globalActive
  constructor
  · have hbindings := h.mirrors.bindings (i := Arena.global) (by rw [hs]; rfl)
    rwa [h.mirrors.global] at hbindings
  · rw [Arena.bindings, hs]
    exact h.valid.bound Arena.global s hs

/-- **Machines that agree look the same.** -/
theorem Agree.observation (h : Agree stack held m n) {outcome outcome' : Outcome α}
    (hending : outcome'.ending = outcome.ending) :
    n.observation outcome' = m.observation outcome := by
  have houtput := h.output
  obtain ⟨σ, φ, h⟩ := h
  obtain ⟨hglobals, hnames⟩ := h.globals
  have hequal : Value.equalities (((m.arena.bindings Arena.global).rename φ).values) =
      Value.equalities (m.arena.bindings Arena.global).values := by
    rw [Bindings.values_rename]
    refine Value.equalities_rename fun v hv w hw i j hi hj => ?_
    exact h.mirrors.closures_inj i j (hnames v hv i hi) (hnames w hw j hj)
  unfold Machine.observation
  dsimp only
  rw [hglobals, hending, houtput, hequal, Bindings.rename, List.map_map]
  simp only [Function.comp_def, Value.appearance_rename]

/-! ## Programs -/

section Programs

open Eval

variable {fuel : Nat}

/-- A statement at the top level that is no expression, before those that follow. -/
theorem topLevelStmt_tracks {q : Value × Value} {rest : List (Stmt α)}
    (hrest : Tracks [(Arena.global, Arena.global)] [q] [] ofValue
      (topLevel (.reclaiming limits) fuel q.1 rest) (topLevel (.keeping limits) fuel q.2 rest))
    (b : Stmt α) : Tracks [(Arena.global, Arena.global)] [q] [] ofValue
      (followed (exec (.reclaiming limits) fuel [q.1] Arena.global b)
        (topLevel (.reclaiming limits) fuel q.1 rest) fun flow => fail flow.misplaced b.note)
      (followed (exec (.keeping limits) fuel [q.2] Arena.global b)
        (topLevel (.keeping limits) fuel q.2 rest) fun flow => fail flow.misplaced b.note) := by
  have hglobal : (Arena.global, Arena.global) ∈ [(Arena.global, Arena.global)] :=
    List.mem_singleton.mpr rfl
  have hstmt := (tracked α limits fuel).exec _ [q] _ _ b hglobal
  refine hstmt.bind (fun _ hx => absurd hx List.not_mem_nil) fun flow flow' l hflow => ?_
  rcases ofFlow_cases hflow with
    ⟨rfl, rfl, rfl⟩ | ⟨rfl, rfl, rfl⟩ | ⟨rfl, rfl, rfl⟩ | ⟨v, w, rfl, rfl, rfl⟩
  · exact hrest
  all_goals exact tracks_fail (fun _ hx => absurd hx List.not_mem_nil) _ b.note

/-- **Top-level statements track themselves**; the latest value of an expression is held. -/
theorem topLevel_tracks (q : Value × Value) (statements : List (Stmt α)) :
    Tracks [(Arena.global, Arena.global)] [q] [] ofValue
      (topLevel (.reclaiming limits) fuel q.1 statements)
      (topLevel (.keeping limits) fuel q.2 statements) := by
  have hglobal : (Arena.global, Arena.global) ∈ [(Arena.global, Arena.global)] :=
    List.mem_singleton.mpr rfl
  induction statements generalizing q with
  | nil =>
    rw [topLevel, topLevel]
    exact tracks_pure (l := [q]) rfl fun _ hx => hx
  | cons b rest ih =>
    cases b with
    | expr site e =>
      rw [topLevel, topLevel]
      have hexpr := (tracked α limits fuel).eval _ [q] _ _ e hglobal
      refine hexpr.bind (fun _ hx => absurd hx List.not_mem_nil) fun v w l hvalue => ?_
      obtain rfl : l = [(v, w)] := hvalue
      -- the value before this one is not needed any more
      refine (ih (v, w)).strengthen fun x hx => ?_
      exact List.mem_append_left [q] hx
    | _ => exact topLevelStmt_tracks (ih q) _

end Programs

/-- Machines that agree between programs. -/
def Alike (m n : Machine α) : Prop := Agree [(Arena.global, Arena.global)] [] m n

/-- **A program ends the same on both machines**, which agree again afterwards. -/
theorem run_agree (h : Alike m n) (fuel : Nat) (p : Program α) :
    (n.run (.keeping limits) fuel p).1.ending = (m.run (.reclaiming limits) fuel p).1.ending ∧
      Alike (m.run (.reclaiming limits) fuel p).2 (n.run (.keeping limits) fuel p).2 := by
  have hstart : Agree [(Arena.global, Arena.global)] [(.nil, .nil)] m n := h.hold_plain rfl
  unfold run
  rcases (topLevel_tracks (.nil, .nil) p.statements m n hstart).cases with
    ⟨v, m', w, n', l, hm, hn, hvalue, hagree⟩ | ⟨e, m', n', hm, hn, hagree⟩
  · obtain rfl : l = [(v, w)] := hvalue
    rw [hm, hn]
    constructor
    · exact congrArg Ending.value (hagree.appearance (List.mem_cons_self ..))
    · exact hagree.weaken fun q hq => absurd hq List.not_mem_nil
  · rw [hm, hn]
    cases e with
    | fault e => exact ⟨rfl, hagree⟩
    | outOfFuel => exact ⟨rfl, hagree⟩

theorem observe_agree (h : Alike m n) (steps : List (Nat × Program α)) :
    m.observe (.reclaiming limits) steps = n.observe (.keeping limits) steps := by
  induction steps generalizing m n with
  | nil => rfl
  | cons step rest ih =>
    obtain ⟨fuel, p⟩ := step
    obtain ⟨hending, hagree⟩ := run_agree h fuel p
    rw [observe, observe, runs, runs, List.map_cons, List.map_cons]
    exact congrArg₂ List.cons (hagree.observation hending).symm (ih hagree)

/-- **Whether slots are used again cannot be observed**: run one after another on one machine, any
    programs end the same, print the same and leave the same global bindings. -/
theorem observe_reclaiming (limits : Limits) (steps : List (Nat × Program α)) :
    initial.observe (.reclaiming limits) steps = initial.observe (.keeping limits) steps :=
  observe_agree agree_initial steps

-- The machines do differ: after two blocks, one has filled the same slot twice.
example :
    let blocks : Program Unit := ⟨[.block () [], .block () []]⟩
    (initial.run (.reclaiming {}) 3 blocks).2.arena.slots.size = 2 ∧
      (initial.run (.keeping {}) 3 blocks).2.arena.slots.size = 3 := by
  decide

end Machine

end Scriptlet
