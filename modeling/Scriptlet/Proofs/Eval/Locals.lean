/-
  Locals: what a body binds stays in its scope.

  1. **Sparing** (`Machine.Spares`) — a step spares a scope when it leaves its bindings, or assigns
     to a name that the scope binds already.
  2. **Step** (`Machine.Touches.spares`) — touching the current scope spares every other one.  An
     assignment goes outward past scopes that do not bind the name, so where it ends it finds the
     name, or else it declares it in the current scope.
  3. **Run** (`Course.spares`) — by induction on the course, every step spares every scope of before
     but the current one, as long as that is in use.  A scope that is opened takes an empty slot, so
     it is none of them.
  4. **Bodies and calls** (`Machine.undisturbed`) — they run in a scope of their own, so no scope of
     before is the current one: each keeps its names, and the same names are visible.
-/
import Mathlib.Data.List.Find
import Scriptlet.Proofs.Eval.Upkeep
import Scriptlet.Proofs.Scope.Assignment

namespace Scriptlet

variable {α β : Type}

/-! ## Names -/

theorem Bindings.isSome_get?_iff {b : Bindings} {x : String} :
    (b.get? x).isSome ↔ x ∈ b.names := by
  induction b with
  | nil => exact ⟨(nomatch ·), (nomatch ·)⟩
  | cons entry rest ih =>
    obtain ⟨y, v⟩ := entry
    show (if y = x then some v else get? rest x).isSome ↔ x ∈ y :: names rest
    rw [List.mem_cons, ← ih]
    split
    case isTrue hy => exact ⟨fun _ => .inl hy.symm, fun _ => rfl⟩
    case isFalse hy => exact ⟨.inr, fun h => h.resolve_left (Ne.symm hy)⟩

namespace Arena

variable {a b : Arena} {i s d : ScopeId} {x : String} {v : Value}

/-- Binding a name changes the bindings of no other scope. -/
theorem bindings_declare_of_ne (hi : i ≠ d) : (a.declare d x v).bindings i = a.bindings i := by
  rw [bindings, bindings, declare, scope?_update, if_neg hi]

/-- Binding a name again leaves the names. -/
theorem names_declare_of_isSome (h : ((a.bindings d).get? x).isSome) :
    ((a.declare d x v).bindings d).names = (a.bindings d).names := by
  have hd : (a.scope? d).isSome := by
    rw [Option.isSome_iff_ne_none]
    intro hnone
    rw [bindings, hnone] at h
    exact absurd h (by simp [Bindings.get?])
  rw [bindings_declare hd, if_pos rfl, Bindings.names_put, if_pos h]

/-- Who defines a name depends on the way outward and on the names of the scopes there. -/
theorem definer?_congr (hchain : b.chain s = a.chain s)
    (hnames : ∀ i ∈ a.chain s, (b.bindings i).names = (a.bindings i).names) (x : String) :
    b.definer? s x = a.definer? s x := by
  unfold definer?
  rw [hchain]
  refine List.find?_congr fun i hi => ?_
  rw [Bool.eq_iff_iff, Bindings.isSome_get?_iff, Bindings.isSome_get?_iff, hnames i hi]

theorem isSome_get?_eq (a : Arena) (s : ScopeId) (x : String) :
    (a.get? s x).isSome = (a.definer? s x).isSome := by
  rw [Bool.eq_iff_iff, Option.isSome_iff_ne_none, Option.isSome_iff_ne_none, ne_eq, ne_eq,
    definer?_eq_none_iff]

theorem capture_bindings (a : Arena) (s i : ScopeId) :
    (a.capture s).bindings i = a.bindings i := by
  obtain ⟨f, hf⟩ := a.scope?_capture_map s i
  rw [bindings, bindings, hf, Option.map_map]
  rfl

/-- Opening a scope changes the bindings of no other. -/
theorem Rooted.bindings_pushed (h : a.Rooted) (hi : (a.scope? i).isSome) (p : ScopeId) :
    i ≠ a.nextSlot p ∧ (a.pushed p).scope? i = a.scope? i := by
  obtain ⟨hempty, hscope⟩ := h.scope?_pushed p
  have hne : i ≠ a.nextSlot p := by
    rintro rfl
    rw [hempty] at hi
    exact absurd hi (by simp)
  exact ⟨hne, (hscope i).trans (if_neg hne)⟩

end Arena

namespace Machine

variable {m k : Machine α} {new : List (Machine α)} {s i p : ScopeId}

/-! ## Sparing -/

/-- From `m` to `k` the scope `i` keeps its bindings, or a name that it binds is assigned to. -/
def Spares (i : ScopeId) (m k : Machine α) : Prop :=
  k.arena.bindings i = m.arena.bindings i ∨
    ∃ s x v, m.arena.definer? s x = some i ∧ k = m.assign s x v

theorem Spares.names (h : Spares i m k) :
    (k.arena.bindings i).names = (m.arena.bindings i).names := by
  rcases h with hsame | ⟨s, x, v, hdefiner, rfl⟩
  · rw [hsame]
  · show ((m.arena.assign s x v).bindings i).names = _
    rw [Arena.assign, hdefiner]
    exact Arena.names_declare_of_isSome (Arena.definer?_eq_some_iff.mp hdefiner).2

theorem bindParams_bindings (hi : i ≠ s) (params : List String) (values : List Value)
    (m : Machine α) :
    (Eval.bindParams s params values m).arena.bindings i = m.arena.bindings i :=
  Eval.bindParams_keeps (P := fun k => k.arena.bindings i = m.arena.bindings i)
    (fun _ _ _ hk => (Arena.bindings_declare_of_ne hi).trans hk) params values rfl

/-- **Touching** the current scope spares every other one. -/
theorem Touches.spares (h : m.Touches s k) (hi : i ≠ s) : Spares i m k := by
  cases h with
  | count depth calls => exact .inl rfl
  | declare x v => exact .inl (Arena.bindings_declare_of_ne hi)
  | bindParams params values => exact .inl (bindParams_bindings hi params values m)
  | assign x v =>
    by_cases hdefiner : m.arena.definer? s x = some i
    · exact .inr ⟨s, x, v, hdefiner, rfl⟩
    · -- the name is declared in the current scope, or assigned to in a third one
      refine .inl (Arena.bindings_declare_of_ne fun heq => ?_)
      cases hd : m.arena.definer? s x with
      | none =>
        rw [hd] at heq
        exact hi heq
      | some d =>
        rw [hd] at heq
        exact hdefiner (heq ▸ hd)
  | define f params body =>
    rw [define_eq]
    exact .inl ((Arena.bindings_declare_of_ne hi).trans (Arena.capture_bindings _ s i))
  | print segment => exact .inl rfl

/-- Steps that spare a scope leave it its names. -/
theorem names_of_spares (h : ∀ step ∈ m.stepsFrom new, Spares i step.1 step.2) :
    ((new.headD m).arena.bindings i).names = (m.arena.bindings i).names := by
  induction new with
  | nil => rfl
  | cons k earlier ih =>
    have hlast : Spares i (earlier.headD m) k := h _ (List.mem_cons_self ..)
    exact hlast.names.trans (ih fun step hstep => h step (List.mem_cons_of_mem _ hstep))

/-- **In a scope of its own** a body spares every scope of before. -/
theorem spares_nested {limits : Limits} {held : List Value} (hm : m.Steady)
    (h : ∀ i, some (m.arena.nextSlot p) ≠ some i → ((m.opening p).arena.scope? i).isSome →
      (∀ k ∈ new, (k.arena.scope? i).isSome) →
      ∀ step ∈ (m.opening p).stepsFrom new, Spares i step.1 step.2)
    (hi : (m.arena.scope? i).isSome)
    (hused : ∀ k ∈ (new.headD (m.opening p)).endScope (.reclaiming limits) held
      (m.arena.nextSlot p) :: (new ++ [m.opening p]), (k.arena.scope? i).isSome) :
    ∀ step ∈ m.stepsFrom ((new.headD (m.opening p)).endScope (.reclaiming limits) held
      (m.arena.nextSlot p) :: (new ++ [m.opening p])), Spares i step.1 step.2 := by
  obtain ⟨hne, hscope⟩ := hm.arena.toRooted.bindings_pushed hi p
  intro step hstep
  rw [stepsFrom_nested] at hstep
  rcases List.mem_cons.mp hstep with rfl | hstep
  · -- the step that ends the scope
    exact .inl (bindings_endScope (hused _ (List.mem_cons_self ..)))
  · rcases List.mem_append.mp hstep with hstep | hstep
    · -- a step of the body, which runs in another scope
      refine h i (fun heq => hne (Option.some.inj heq).symm) ?_ (fun k hk => ?_) step hstep
      · exact hused _ (List.mem_cons_of_mem _ (List.mem_append_right _ (List.mem_cons_self ..)))
      · exact hused k (List.mem_cons_of_mem _ (List.mem_append_left _ hk))
    · -- the step that opens the scope
      rw [List.mem_singleton.mp hstep]
      refine .inl ?_
      show (m.arena.pushed p).bindings i = m.arena.bindings i
      rw [Arena.bindings, Arena.bindings, hscope]

end Machine

/-! ## Along a course -/

/-- **Along a course** every step spares every scope but the current one, from its beginning on and
    as long as it is in use. -/
theorem Course.spares {limits : Limits} {here : Option ScopeId} {m : Machine α}
    {new : List (Machine α)} {ends : List (ScopeEnd α)}
    (h : Course (.reclaiming limits) here m new ends) (hm : m.Steady)
    (hhere : ∀ s, here = some s → s ∈ m.arena.activeScopes) (i : ScopeId) (hi : here ≠ some i)
    (hsome : (m.arena.scope? i).isSome) (hused : ∀ k ∈ new, (k.arena.scope? i).isSome) :
    ∀ step ∈ m.stepsFrom new, Machine.Spares i step.1 step.2 := by
  generalize hsettings : Settings.reclaiming limits = settings at h
  induction h generalizing i with
  | stay => exact fun step hstep => absurd hstep List.not_mem_nil
  -- a step that touches the current scope spares every other
  | touch h =>
    intro step hstep
    rw [List.mem_singleton.mp hstep]
    exact h.spares fun heq => hi (heq ▸ rfl)
  | @andThen here m new new' ends ends' first second ihFirst ihSecond =>
    have hfirst : ∀ k ∈ new, (k.arena.scope? i).isSome :=
      fun k hk => hused k (List.mem_append_right _ hk)
    have hupkeep := (hsettings ▸ first).upkeep hm hhere
    -- the scope is still there where the second stretch starts
    have hlast : ((new.headD m).arena.scope? i).isSome := by
      rcases Machine.headD_eq_or_mem (m := m) new with heq | hmem
      · rw [heq]
        exact hsome
      · exact hfirst _ hmem
    intro step hstep
    rw [Machine.stepsFrom_append] at hstep
    rcases List.mem_append.mp hstep with hstep | hstep
    · exact ihSecond (hupkeep.steady_headD hm) (hupkeep.active ▸ hhere) i hi hlast
        (fun k hk => hused k (List.mem_append_left _ hk)) step hstep
    · exact ihFirst hm hhere i hi hsome hfirst step hstep
  | @nested here m p new ends hp inner held ih =>
    have hopen := hm.opening (hm.isSome_of_opens hhere hp)
    -- inside, the current scope is a new one, so nothing of before is current
    subst hsettings
    exact Machine.spares_nested hm (ih hopen (hm.current_opening p)) hsome hused

/-! ## Bodies and calls -/

/-- A computation that was watched from `m` on, up to `w`, has left the names of before as they
    were. -/
structure Undisturbed (m : Machine α) (w : Watch α) : Prop where
  /-- A scope that was in use at the beginning and all the way has the names it had, in the order in
      which they were declared. -/
  names : ∀ i, (m.arena.scope? i).isSome → (∀ k ∈ w.passed, (k.arena.scope? i).isSome) →
    (w.machine.arena.bindings i).names = (m.arena.bindings i).names
  /-- In no step is more done to such a scope than assigning to a name that it binds. -/
  steps : ∀ i, (m.arena.scope? i).isSome → (∀ k ∈ w.passed, (k.arena.scope? i).isSome) →
    ∀ step ∈ w.steps, Machine.Spares i step.1 step.2
  /-- The scopes outward from one that was active are such scopes, and still the same. -/
  chain : ∀ s ∈ m.arena.activeScopes, w.machine.arena.chain s = m.arena.chain s ∧
    ∀ i ∈ m.arena.chain s, ∀ k ∈ w.passed, (k.arena.scope? i).isSome
  /-- From there the same names are visible, and the same scopes bind them. -/
  visible : ∀ s ∈ m.arena.activeScopes, ∀ x,
    (w.machine.arena.get? s x).isSome = (m.arena.get? s x).isSome ∧
    w.machine.arena.definer? s x = m.arena.definer? s x

/-- What is spared on the way is undisturbed. -/
theorem Undisturbed.of_spares {m : Machine α} {new : List (Machine α)} {w : Watch α}
    (hpassed : w.passed = new ++ [m]) (hmachine : w.machine = new.headD m) (hm : m.Steady)
    (hupkeep : Upkeep m new)
    (hspares : ∀ i, (m.arena.scope? i).isSome → (∀ k ∈ new, (k.arena.scope? i).isSome) →
      ∀ step ∈ m.stepsFrom new, Machine.Spares i step.1 step.2) : Undisturbed m w := by
  -- each step on the way spares the scope, so its names stay in their order
  have hnames : ∀ i, (m.arena.scope? i).isSome → (∀ k ∈ w.passed, (k.arena.scope? i).isSome) →
      (w.machine.arena.bindings i).names = (m.arena.bindings i).names := by
    intro i hi hused
    rw [hpassed] at hused
    rw [hmachine]
    exact Machine.names_of_spares
      (hspares i hi fun k hk => hused k (List.mem_append_left _ hk))
  have hchain : ∀ s ∈ m.arena.activeScopes, w.machine.arena.chain s = m.arena.chain s ∧
      ∀ i ∈ m.arena.chain s, ∀ k ∈ w.passed, (k.arena.scope? i).isSome := by
    intro s hs
    -- an active scope keeps the path around it
    have hpath := hm.arena.toRooted.path_chain (Arena.isSome_of_mem_activeScopes hs)
    refine ⟨?_, fun i hi k hk => ?_⟩
    · rw [hmachine]
      exact (hupkeep.path_headD hs hpath).chain_eq
    · rw [hpassed] at hk
      rcases List.mem_append.mp hk with hk | hk
      · exact (hupkeep.paths s hs _ hpath k hk).isSome hi
      · rw [List.mem_singleton.mp hk]
        exact hpath.isSome hi
  constructor
  case names => exact hnames
  case steps =>
    intro i hi hused
    rw [hpassed] at hused
    rw [Watch.steps_eq hpassed]
    exact hspares i hi fun k hk => hused k (List.mem_append_left _ hk)
  case chain => exact hchain
  case visible =>
    intro s hs x
    obtain ⟨hsame, hused⟩ := hchain s hs
    have hpath := hm.arena.toRooted.path_chain (Arena.isSome_of_mem_activeScopes hs)
    -- names and chain are the same, so a name is found in the same scope
    have hdefiner : w.machine.arena.definer? s x = m.arena.definer? s x :=
      Arena.definer?_congr hsame (fun i hi => hnames i (hpath.isSome hi) (hused i hi)) x
    exact ⟨by rw [Arena.isSome_get?_eq, Arena.isSome_get?_eq, hdefiner], hdefiner⟩

namespace Watched

variable {limits : Limits} {m : Machine α}

/-- A body in a scope of its own. -/
theorem inScope_undisturbed {q : ScopeId → Watched α β} (hm : m.Steady)
    (hq : ∀ i, Takes (.reclaiming limits) (some i) (q i)) (held : List Value)
    (needed : β → List Value) {parent : ScopeId} (hparent : (m.arena.scope? parent).isSome) :
    Undisturbed m (left (inScope (.reclaiming limits) held parent needed q (.start m))) := by
  have hopen := hm.opening hparent
  have hhere := hm.current_opening parent
  -- the state that the body leaves, with the scope still open
  obtain ⟨values, hleft⟩ := left_inScope (.reclaiming limits) held parent needed q (.start m)
  have hfollows := hq (m.arena.nextSlot parent) ((Watch.start m).change (·.opening parent))
  rw [hleft]
  change Undisturbed m
    ((left (q (m.arena.nextSlot parent) ((Watch.start m).change (·.opening parent)))).close
      (.reclaiming limits) values (m.arena.nextSlot parent))
  generalize left (q (m.arena.nextSlot parent) ((Watch.start m).change (·.opening parent))) = w
    at hfollows
  obtain ⟨new, ends, hpassed, -, hmachine, hcourse⟩ := hfollows
  have hmachine : w.machine = new.headD (m.opening parent) := hmachine
  -- the states passed: the end of the scope, those of the body, its opening, and the first one
  have hended : (w.close (.reclaiming limits) values (m.arena.nextSlot parent)).passed
      = ((new.headD (m.opening parent)).endScope (.reclaiming limits) values
        (m.arena.nextSlot parent) :: (new ++ [m.opening parent])) ++ [m] := by
    show w.machine.endScope _ _ _ :: w.passed = _
    rw [hpassed, hmachine, List.cons_append, List.append_assoc]
    rfl
  exact .of_spares hended
    (congrArg (Machine.endScope (.reclaiming limits) values (m.arena.nextSlot parent)) hmachine) hm
    ((hcourse.upkeep hopen hhere).nested hm hparent limits values)
    fun i hi hused => Machine.spares_nested hm (hcourse.spares hopen hhere) hi hused

/-- A computation that opens scopes in those of closures only. -/
theorem Takes.undisturbed {q : Watched α β} (hm : m.Steady)
    (hq : Takes (.reclaiming limits) none q) : Undisturbed m (left (q (.start m))) := by
  obtain ⟨new, ends, hpassed, -, hmachine, hcourse⟩ := hq (.start m)
  have hhere : ∀ s, none = some s → s ∈ m.arena.activeScopes := fun s hs => nomatch hs
  exact .of_spares hpassed hmachine hm (hcourse.upkeep hm hhere) fun i hi hused =>
    hcourse.spares hm hhere i (fun heq => nomatch heq) hi hused

end Watched

namespace Machine

/-- **Inner bindings never escape.**  Run programs one after another on a fresh machine, each with a
    bound on its steps.  In every state on the way, whatever body is run in a scope of its own
    inside an active one, and whatever value is called with whatever arguments, and however that
    ends, the scopes of before keep their names, and the same names are visible as before. -/
theorem undisturbed_of_passed (limits : Limits) (steps : List (Nat × Program α)) :
    let watched := (Watch.start initial).runAll (.reclaiming limits) steps
    (watched.1, watched.2.machine) = initial.runAll (.reclaiming limits) steps ∧
    ∀ m ∈ watched.2.passed, ∀ fuel held frames,
      (∀ parent ∈ m.arena.activeScopes, ∀ body,
        let w := left (Watched.inScope (.reclaiming limits) held parent Flow.values
          (fun inner => Eval.sequence
            (Watched.exec (.reclaiming limits) fuel held inner frames) body) (.start m))
        w.machine = left (Eval.inScope (.reclaiming limits) held parent Flow.values
          (fun inner => Eval.sequence (Eval.exec (.reclaiming limits) fuel held inner) body) m) ∧
        Undisturbed m w) ∧
      ∀ site f values,
        let w := left
          (Watched.call (.reclaiming limits) fuel held frames site f values (.start m))
        w.machine = left (Eval.call (.reclaiming limits) fuel held site f values m) ∧
        Undisturbed m w := by
  intro watched
  refine ⟨Watch.runAll_eq _ steps (.start initial), ?_⟩
  intro m hm fuel held frames
  have hsteady := Watch.steady_of_passed hm
  have hshown := Watched.shown α (.reclaiming limits) fuel
  have htakes := Watched.takes α (.reclaiming limits) fuel
  constructor
  · intro parent hparent body
    have hbody := fun inner => Watched.sequence_takes (htakes.exec held inner frames) body
    refine ⟨((Watched.block_shows hshown held parent frames body).left (.start m)).symm, ?_⟩
    exact Watched.inScope_undisturbed hsteady hbody held Flow.values
      (Arena.isSome_of_mem_activeScopes hparent)
  · intro site f values
    refine ⟨((hshown.call held frames site f values).left (.start m)).symm, ?_⟩
    exact (htakes.call none held frames site f values).undisturbed hsteady

/-- A body that assigns to an unknown name binds it on the way, in its own scope, and afterwards the
    name is as unknown as before. -/
theorem undisturbed_of_passed_unknown :
    let body : List (Stmt Unit) := [.expr () (.assign () "x" (.literal () (.bool true)))]
    let w := left (Watched.inScope (.reclaiming {}) [] Arena.global Flow.values
      (fun inner => Eval.sequence (Watched.exec (.reclaiming {}) 3 [] inner []) body)
      (.start initial))
    (∃ k ∈ w.passed, k.arena.get? 1 "x" = some (.bool true)) ∧ Undisturbed initial w ∧
      w.machine.arena.get? Arena.global "x" = none := by
  intro body w
  have hglobal : Arena.global ∈ (initial : Machine Unit).arena.activeScopes := tidy_initial.global
  obtain ⟨-, hpassed⟩ := undisturbed_of_passed (α := Unit) {} []
  obtain ⟨hbodies, -⟩ := hpassed initial (List.mem_singleton.mpr rfl) 3 [] []
  obtain ⟨-, hundisturbed⟩ := hbodies Arena.global hglobal body
  have hvisible := (hundisturbed.visible Arena.global hglobal "x").1
  exact ⟨⟨_, .tail _ (.tail _ (.tail _ (.head _))), rfl⟩, hundisturbed,
    Option.isNone_iff_eq_none.mp (by rw [← Option.not_isSome, hvisible]; rfl)⟩

end Machine

end Scriptlet
