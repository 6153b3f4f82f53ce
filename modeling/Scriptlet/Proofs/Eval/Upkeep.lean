/-
  Upkeep: what every course keeps.

  1. **Steady machines** (`Machine.Steady`) — the arena is valid, and the scope of every closure is
     captured.  Nothing is said of the scopes that are open or of the values that are held, so a
     state is steady or not by itself.
  2. **Steps** — touching the current scope changes no link and no activity (`Machine.Touches.unmoved`);
     a scope may end when no active scope lies directly inside it (`Machine.Steady.endScope`).
  3. **The crux** (`Course.upkeep`) — along a course every state is steady, the way outward from an
     active scope stays as it is, and at the end the same scopes are active as at the beginning.
     No active scope lies inside one that ends: it was opened before, and so its way outward is older
     than the scope.
-/
import Scriptlet.Proofs.Eval.Course
import Scriptlet.Proofs.Eval.Reclamation
import Scriptlet.Proofs.Scope.Representation

namespace Scriptlet

variable {α : Type}

namespace Arena

variable {a : Arena} {i j p : ScopeId} {l : List ScopeId}

/-- A valid arena is tidy. -/
theorem Valid.tidy (h : a.Valid) : a.Tidy := by
  obtain ⟨g, hg, hactive⟩ := h.globalActive
  exact ⟨h.free, mem_activeScopes hg hactive⟩

theorem isSome_of_mem_activeScopes (h : i ∈ a.activeScopes) : (a.scope? i).isSome := by
  obtain ⟨s, hs, -⟩ := Option.map_eq_some_iff.mp (mem_activeScopes_iff.mp h)
  rw [hs]
  rfl

/-- The scope around another is further on its way outward. -/
theorem Path.outer (h : Path a i l) (hp : a.link? i = some (some p)) : p ≠ i ∧ p ∈ l := by
  cases h with
  | outermost hnone =>
    rw [hnone] at hp
    exact absurd hp (by simp)
  | inner hsome hi outer =>
    rw [hsome, Option.some.injEq, Option.some.injEq] at hp
    subst hp
    refine ⟨?_, List.mem_cons_of_mem _ outer.mem_self⟩
    rintro rfl
    exact hi outer.mem_self

/-- A path that avoids a scope is still there when the scope is released. -/
theorem Path.release (h : Path a j l) (hi : i ∉ l) : Path (a.release i) j l := by
  refine h.congr fun k hk => ?_
  have hne : k ≠ i := by
    rintro rfl
    exact hi hk
  rw [link?, link?, scope?_release_of_ne hne]

/-- A scope that is in use after a release was in use before, with the same bindings. -/
theorem bindings_release (hj : ((a.release i).scope? j).isSome) :
    (a.release i).bindings j = a.bindings j := by
  by_cases hji : j = i
  · subst hji
    unfold Arena.release at hj ⊢
    split
    · rfl
    · next hglobal =>
      rw [if_neg hglobal] at hj
      split
      · show (a.update j fun s => { s with active := false }).bindings j = _
        rw [bindings, bindings, scope?_update, if_pos rfl, Option.map_map]
        rfl
      · next hc =>
        rw [if_neg hc, scope?_vacate, if_pos rfl] at hj
        exact absurd hj (by simp)
  · rw [bindings, bindings, scope?_release_of_ne hji]

end Arena

namespace Machine

variable {m k : Machine α} {s i j p : ScopeId} {l : List ScopeId} {here : Option ScopeId}
  {limits : Limits} {held : List Value}

/-! ## Steady machines -/

/-- A machine whose arena is valid, and whose closures are of captured scopes. -/
structure Steady (m : Machine α) : Prop where
  arena : m.arena.Valid
  scopes : ∀ id c, m.closure? id = some c → m.arena.isCaptured c.scope = true

theorem steady_initial : (initial : Machine α).Steady := by
  obtain ⟨σ, φ, h⟩ := agree_initial (α := α)
  exact ⟨h.valid.arena, h.valid.scopes⟩

/-! ## Touching -/

/-- `k` is steady, with the links and the active scopes of `m`. -/
structure Unmoved (m k : Machine α) : Prop where
  steady : k.Steady
  links : ∀ j, k.arena.link? j = m.arena.link? j
  active : k.arena.activeScopes = m.arena.activeScopes

theorem Unmoved.refl (h : m.Steady) : Unmoved m m := ⟨h, fun _ => rfl, rfl⟩

/-- What two steps leave alone, both of them do. -/
theorem Unmoved.trans {k' : Machine α} (h : Unmoved m k) (h' : Unmoved k k') : Unmoved m k' :=
  ⟨h'.steady, fun j => (h'.links j).trans (h.links j), h'.active.trans h.active⟩

/-- Declaring a name moves no scope. -/
theorem Steady.declare (h : m.Steady) (s : ScopeId) (x : String) (v : Value) :
    Unmoved m (m.declare s x v) := by
  constructor
  case steady =>
    refine ⟨h.arena.update (fun _ => rfl) (fun _ => rfl) fun _ => rfl, ?_⟩
    intro id c hc
    have hsame : (m.declare s x v).arena.isCaptured c.scope = m.arena.isCaptured c.scope :=
      Arena.isCaptured_update fun _ => rfl
    rw [hsame]
    exact h.scopes id c hc
  case links => exact fun j => Arena.link?_update fun _ => rfl
  case active => exact (declare_neutral s x v m h.arena.tidy).2.active

theorem Steady.bindParams (h : m.Steady) (s : ScopeId) (params : List String)
    (values : List Value) : Unmoved m (Eval.bindParams s params values m) :=
  Eval.bindParams_keeps (fun _ x v hk => hk.trans (hk.steady.declare s x v)) params values (.refl h)

/-- Defining a function marks scopes as captured, and moves none. -/
theorem Steady.defined (h : m.Steady) {c : Closure α} (hc : (m.arena.scope? c.scope).isSome) :
    Unmoved m (m.defined c) := by
  constructor
  case steady =>
    refine ⟨h.arena.capture hc, ?_⟩
    intro id d hd
    -- the new closure is of the scope just captured, and no mark is taken away
    rcases Slots.eq_or_at?_of_fill hd with rfl | hd
    · exact h.arena.isCaptured_capture_self hc
    · exact Arena.isCaptured_capture (h.scopes id d hd) c.scope
  case links => exact fun j => Arena.link?_capture _ _ j
  case active => exact (h.arena.tidy.capture c.scope).2

/-- **Touching** the current scope keeps all but bindings and marks. -/
theorem Touches.unmoved (h : m.Touches s k) (hm : m.Steady) (hs : (m.arena.scope? s).isSome) :
    Unmoved m k := by
  cases h with
  | count depth calls => exact ⟨⟨hm.arena, hm.scopes⟩, fun _ => rfl, rfl⟩
  | declare x v => exact hm.declare s x v
  | bindParams params values => exact hm.bindParams s params values
  | assign x v => exact hm.declare _ x v
  | define f params body =>
    rw [define_eq]
    have hdefined := hm.defined (c := ⟨params, body, s⟩) hs
    exact hdefined.trans
      (hdefined.steady.declare s f (.function (m.nextClosure ⟨params, body, s⟩) f))
  | print segment => exact ⟨⟨hm.arena, hm.scopes⟩, fun _ => rfl, rfl⟩

/-! ## Opening and ending scopes -/

/-- A scope inside which another is opened is in use. -/
theorem Steady.isSome_of_opens (h : m.Steady) (hhere : ∀ s, here = some s → s ∈ m.arena.activeScopes)
    (hp : m.Opens here p) : (m.arena.scope? p).isSome := by
  rcases hp with hp | ⟨id, c, hc, rfl⟩
  · exact Arena.isSome_of_mem_activeScopes (hhere p hp)
  · obtain ⟨s, hs, -⟩ := Arena.isCaptured_eq_true.mp (h.scopes id c hc)
    rw [hs]
    rfl

/-- A machine stays steady when a scope is opened. -/
theorem Steady.opening (h : m.Steady) (hp : (m.arena.scope? p).isSome) : (m.opening p).Steady :=
  ⟨h.arena.pushed hp, fun id c hc => h.arena.isCaptured_pushed (h.scopes id c hc) p⟩

/-- The scope that is opened is active. -/
theorem Steady.current_opening (h : m.Steady) (p : ScopeId) :
    ∀ s, some (m.arena.nextSlot p) = some s → s ∈ (m.opening p).arena.activeScopes := by
  intro s hs
  obtain ⟨-, -, hperm⟩ := h.arena.tidy.pushed p
  exact Option.some.inj hs ▸ hperm.mem_iff.mpr (List.mem_cons_self ..)

/-- **How a scope ends**: it is released, and a collection may follow. -/
theorem endScope_cases (limits : Limits) (held : List Value) (i : ScopeId) (m : Machine α) :
    m.endScope (.reclaiming limits) held i = { m with arena := m.arena.release i } ∨
      m.endScope (.reclaiming limits) held i
        = collect { m with arena := m.arena.release i } held := by
  show (if (m.arena.release i).shouldCollect = true then _ else _) = _ ∨
    (if (m.arena.release i).shouldCollect = true then _ else _) = _
  split
  · exact .inr rfl
  · exact .inl rfl

/-- **Ending a scope** that no active scope lies directly inside. -/
theorem Steady.endScope (h : m.Steady) (hi : (m.arena.scope? i).isSome)
    (hinside : ∀ j ∈ m.arena.activeScopes, m.arena.link? j ≠ some (some i)) (limits : Limits)
    (held : List Value) : (m.endScope (.reclaiming limits) held i).Steady := by
  have hrelease : Steady { m with arena := m.arena.release i } := by
    constructor
    case arena =>
      -- no active scope lies directly inside, so the scope may go
      refine h.arena.release hi ?_
      intro j t ht ha hp
      refine hinside j (Arena.mem_activeScopes ht ha) ?_
      rw [Arena.link?, ht, ← hp]
      rfl
    case scopes => exact fun id c hc => Arena.isCaptured_release (h.scopes id c hc) i
  -- by itself, or with a collection after it
  rcases endScope_cases limits held i m with heq | heq
  · rw [heq]
    exact hrelease
  · rw [heq]
    refine ⟨?_, isCaptured_collect hrelease.scopes held⟩
    rw [collect_eq]
    exact hrelease.arena.collect _ _

/-- The way outward from another active scope stays. -/
theorem path_endScope (hpath : m.arena.Path j l) (hj : j ∈ m.arena.activeScopes) (hi : i ∉ l) :
    (m.endScope (.reclaiming limits) held i).arena.Path j l := by
  have hrelease : (m.arena.release i).Path j l := hpath.release hi
  rcases endScope_cases limits held i m with heq | heq
  · rw [heq]
    exact hrelease
  · rw [heq, collect_eq]
    have hne : j ≠ i := by
      rintro rfl
      exact hi hpath.mem_self
    obtain ⟨s, hs, ha⟩ := Option.map_eq_some_iff.mp (Arena.mem_activeScopes_iff.mp hj)
    have hs : (m.arena.release i).scope? j = some s := by rw [Arena.scope?_release_of_ne hne, hs]
    exact hrelease.collect (Arena.active_not_garbage hs ha)

/-- A scope that is in use afterwards has the bindings it had. -/
theorem bindings_endScope
    (hj : ((m.endScope (.reclaiming limits) held i).arena.scope? j).isSome) :
    (m.endScope (.reclaiming limits) held i).arena.bindings j = m.arena.bindings j := by
  rcases endScope_cases limits held i m with heq | heq
  · rw [heq] at hj ⊢
    exact Arena.bindings_release hj
  · rw [heq] at hj ⊢
    have hscope : (collect { m with arena := m.arena.release i } held).arena.scope? j =
        (m.arena.release i).scope? j := by
      rw [scope?_collect] at hj ⊢
      split at hj
      · exact absurd hj (by simp)
      · next hnot => rw [if_neg hnot]
    rw [hscope] at hj
    rw [Arena.bindings, hscope]
    exact Arena.bindings_release hj

end Machine

/-! ## Along a course -/

/-- What is kept from `m` on through the states passed. -/
structure Upkeep (m : Machine α) (new : List (Machine α)) : Prop where
  steady : ∀ k ∈ new, k.Steady
  active : (new.headD m).arena.activeScopes = m.arena.activeScopes
  /-- The way outward from a scope that is active at the beginning. -/
  paths : ∀ i ∈ m.arena.activeScopes, ∀ l, m.arena.Path i l → ∀ k ∈ new, k.arena.Path i l

namespace Upkeep

variable {m : Machine α} {new new' : List (Machine α)} {i p : ScopeId} {l : List ScopeId}

/-- The state at the end of a stretch is steady. -/
theorem steady_headD (h : Upkeep m new) (hm : m.Steady) : (new.headD m).Steady := by
  rcases Machine.headD_eq_or_mem (m := m) new with heq | hmem
  · rw [heq]
    exact hm
  · exact h.steady _ hmem

/-- A path from an active scope is there at the end of the stretch. -/
theorem path_headD (h : Upkeep m new) (hi : i ∈ m.arena.activeScopes) (hpath : m.arena.Path i l) :
    (new.headD m).arena.Path i l := by
  rcases Machine.headD_eq_or_mem (m := m) new with heq | hmem
  · rw [heq]
    exact hpath
  · exact h.paths i hi l hpath _ hmem

theorem refl (m : Machine α) : Upkeep m [] :=
  ⟨fun _ hk => absurd hk List.not_mem_nil, rfl, fun _ _ _ _ _ hk => absurd hk List.not_mem_nil⟩

theorem of_unmoved {k : Machine α} (h : Machine.Unmoved m k) : Upkeep m [k] := by
  constructor
  case steady =>
    intro k' hk'
    rw [List.mem_singleton.mp hk']
    exact h.steady
  case active => exact h.active
  case paths =>
    intro i _ l hpath k' hk'
    rw [List.mem_singleton.mp hk']
    exact hpath.congr fun j _ => h.links j

/-- **One stretch after the other.** -/
theorem trans (h : Upkeep m new) (h' : Upkeep (new.headD m) new') : Upkeep m (new' ++ new) := by
  constructor
  case steady =>
    intro k hk
    exact (List.mem_append.mp hk).elim (h'.steady k) (h.steady k)
  case active =>
    rw [Machine.headD_append]
    exact h'.active.trans h.active
  case paths =>
    intro i hi l hpath k hk
    rcases List.mem_append.mp hk with hk | hk
    · exact h'.paths i (h.active ▸ hi) l (h.path_headD hi hpath) k hk
    · exact h.paths i hi l hpath k hk

/-- A scope that is opened lies on the way outward from no other active scope. -/
theorem opening (hm : m.Steady) (hi : i ∈ m.arena.activeScopes) (hpath : m.arena.Path i l)
    (p : ScopeId) : m.arena.nextSlot p ∉ l ∧ i ∈ (m.opening p).arena.activeScopes ∧
      (m.opening p).arena.Path i l := by
  obtain ⟨hnotin, hpath⟩ := hm.arena.toRooted.path_pushed hpath p
  obtain ⟨-, -, hperm⟩ := hm.arena.tidy.pushed p
  exact ⟨hnotin, hperm.mem_iff.mpr (List.mem_cons_of_mem _ hi), hpath⟩

/-- **A scope that is opened, has its course and ends.** -/
theorem nested (hm : m.Steady) (hp : (m.arena.scope? p).isSome) (h : Upkeep (m.opening p) new)
    (limits : Limits) (held : List Value) : Upkeep m
      ((new.headD (m.opening p)).endScope (.reclaiming limits) held (m.arena.nextSlot p) ::
        (new ++ [m.opening p])) := by
  have hopen := hm.opening hp
  have hlast := h.steady_headD hopen
  obtain ⟨-, -, hperm⟩ := hm.arena.tidy.pushed p
  have hactive : ∀ j ∈ (new.headD (m.opening p)).arena.activeScopes,
      j = m.arena.nextSlot p ∨ j ∈ m.arena.activeScopes := by
    intro j hj
    rw [h.active] at hj
    exact List.mem_cons.mp (hperm.mem_iff.mp hj)
  -- what is active at the end of the body has its way outward from before
  have hinside : ∀ j ∈ (new.headD (m.opening p)).arena.activeScopes,
      (new.headD (m.opening p)).arena.link? j ≠ some (some (m.arena.nextSlot p)) := by
    intro j hj hlink
    rcases hactive j hj with rfl | hj
    · obtain ⟨l, hpath⟩ := hlast.arena.path _ (Arena.isSome_of_mem_activeScopes hj)
      exact (hpath.outer hlink).1 rfl
    · obtain ⟨l, hpath⟩ := hm.arena.path j (Arena.isSome_of_mem_activeScopes hj)
      obtain ⟨hnotin, hj, hpath⟩ := opening hm hj hpath p
      exact hnotin ((h.path_headD hj hpath).outer hlink).2
  have hid : m.arena.nextSlot p ∈ (new.headD (m.opening p)).arena.activeScopes := by
    rw [h.active]
    exact hperm.mem_iff.mpr (List.mem_cons_self ..)
  constructor
  case steady =>
    intro k hk
    rcases List.mem_cons.mp hk with rfl | hk
    · exact hlast.endScope (Arena.isSome_of_mem_activeScopes hid) hinside limits held
    · rcases List.mem_append.mp hk with hk | hk
      · exact h.steady k hk
      · rw [List.mem_singleton.mp hk]
        exact hopen
  case active =>
    exact (Machine.endScope_active _ held hm.arena.tidy p hlast.arena.tidy h.active).2
  case paths =>
    intro i hi l hpath k hk
    obtain ⟨hnotin, hi', hpath'⟩ := opening hm hi hpath p
    rcases List.mem_cons.mp hk with rfl | hk
    · exact Machine.path_endScope (h.path_headD hi' hpath') (h.active ▸ hi') hnotin
    · rcases List.mem_append.mp hk with hk | hk
      · exact h.paths i hi' l hpath' k hk
      · rw [List.mem_singleton.mp hk]
        exact hpath'

end Upkeep

/-- **Every course keeps the machine steady**, the active scopes, and their ways outward. -/
theorem Course.upkeep {limits : Limits} {here : Option ScopeId} {m : Machine α}
    {new : List (Machine α)} {ends : List (ScopeEnd α)}
    (h : Course (.reclaiming limits) here m new ends) (hm : m.Steady)
    (hhere : ∀ s, here = some s → s ∈ m.arena.activeScopes) : Upkeep m new := by
  generalize hsettings : Settings.reclaiming limits = settings at h
  induction h with
  | stay => exact .refl _
  | touch h =>
    exact .of_unmoved (h.unmoved hm (Arena.isSome_of_mem_activeScopes (hhere _ rfl)))
  | andThen first second ihFirst ihSecond =>
    have hfirst := ihFirst hm hhere
    exact hfirst.trans (ihSecond (hfirst.steady_headD hm) (hfirst.active ▸ hhere))
  | @nested here m p new ends hp inner held ih =>
    have hsome := hm.isSome_of_opens hhere hp
    have hinner := ih (hm.opening hsome) (hm.current_opening p)
    subst hsettings
    exact hinner.nested hm hsome limits held

/-- The states that a watched run passes are steady. -/
theorem Watch.steady_of_passed {limits : Limits} {steps : List (Nat × Program α)} {m : Machine α}
    (hm : m ∈ ((start .initial).runAll (.reclaiming limits) steps).2.passed) : m.Steady := by
  obtain ⟨new, ends, hpassed, -, -, hcourse⟩ :=
    runAll_follows (.reclaiming limits) steps (start (Machine.initial (α := α)))
  rw [hpassed] at hm
  rcases List.mem_append.mp hm with hm | hm
  · refine (hcourse.upkeep Machine.steady_initial fun s hs => ?_).steady m hm
    exact Option.some.inj hs ▸ Machine.tidy_initial.global
  · rw [List.mem_singleton.mp hm]
    exact Machine.steady_initial

end Scriptlet
