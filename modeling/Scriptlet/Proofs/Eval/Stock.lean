/-
  Stock: scopes that are no longer active do not pile up.

  1. **Counters** (`Arena.counters`) — touching the current scope changes none of them; opening a
     scope makes one more in use; a release makes one less in use, or one more retained
     (`Arena.Tidy.live_release`).
  2. **The balance** (`Arena.Stock`) — with the number `live` of scopes left by the latest
     collection: what is in use now and no longer active was left by it or retained since, and fewer
     are retained than make a collection due.  A scope end settles what the body opened, and a
     collection starts a new balance.
  3. **Settled machines** (`Machine.Settled`) — after a collection whatever is in use is within reach
     of active scopes and held values, and every closure is named by a value.
  4. **The result** (`Machine.stock_bounded`) — by induction on the course of a run, at each end of a
     scope.
-/
import Scriptlet.Proofs.Eval.Upkeep
import Scriptlet.Proofs.Scope.Garbage

namespace Scriptlet

variable {α : Type}

namespace Arena

variable {a b : Arena} {i p : ScopeId} {live : Nat}

/-! ## Counting scopes -/

/-- The scopes that are in use and no longer active, in the order of slots. -/
def retiredScopes (a : Arena) : List ScopeId :=
  (List.range a.slots.size).filter fun id => ((a.scope? id).map fun s => !s.active).getD false

/-- A scope in use is active or retired. -/
theorem Tidy.live_eq (h : a.Tidy) : a.live = a.activeScopes.length + a.retiredScopes.length := by
  have hcount := h.free.length_add_count
  -- among any slots, those in use are the active and the retired ones
  have hsplit : ∀ ids : List ScopeId, ids.countP (fun i => (a.scope? i).isSome) =
      ids.countP (fun i => ((a.scope? i).map Scope.active).getD false) +
      ids.countP (fun i => ((a.scope? i).map fun s => !s.active).getD false) := by
    intro ids
    induction ids with
    | nil => rfl
    | cons i ids ih =>
      rw [List.countP_cons, List.countP_cons, List.countP_cons, ih]
      cases a.scope? i with
      | none => simp
      | some s => cases hs : s.active <;> simp [hs] <;> omega
  have hused := hsplit (List.range a.slots.size)
  rw [List.countP_eq_length_filter (p := fun i => ((a.scope? i).map Scope.active).getD false),
    List.countP_eq_length_filter (p := fun i => ((a.scope? i).map fun s => !s.active).getD false)]
    at hused
  show a.slots.size - a.free.length = a.activeScopes.length + a.retiredScopes.length
  have hcount : a.free.length +
      (List.range a.slots.size).countP (fun i => (a.scope? i).isSome) = a.slots.size := hcount
  have hused : (List.range a.slots.size).countP (fun i => (a.scope? i).isSome) =
      a.activeScopes.length + a.retiredScopes.length := hused
  omega

/-- The number of scopes in use, of captured scopes released, and of such scopes that make a
    collection due. -/
def counters (a : Arena) : Nat × Nat × Nat := (a.live, a.retained, a.threshold)

theorem counters_update (f : Scope → Scope) : (a.update i f).counters = a.counters := by
  have hlive : (a.update i f).live = a.live := congrArg (· - a.free.length) Array.size_modify
  show ((a.update i f).live, a.retained, a.threshold) = _
  rw [hlive]
  rfl

theorem counters_capture (a : Arena) (i : ScopeId) : (a.capture i).counters = a.counters := by
  unfold Arena.capture
  generalize (a.chain i).takeWhile _ = ids
  induction ids generalizing a with
  | nil => rfl
  | cons j ids ih => exact (ih _).trans (counters_update _)

/-- A scope that is opened is one more in use. -/
theorem Tidy.live_pushed (h : a.Tidy) (p : ScopeId) : (a.pushed p).live = a.live + 1 := by
  have hcount := h.free.length_add_count
  obtain ⟨slots, free, retained, threshold⟩ := a
  cases free with
  | nil => exact Array.size_push ..
  | cons id free =>
    have hcount : (id :: free).length + _ = slots.size := hcount
    rw [List.length_cons] at hcount
    show (slots.setIfInBounds id (some (opened p))).size - free.length
      = slots.size - (id :: free).length + 1
    rw [Array.size_setIfInBounds, List.length_cons]
    omega

/-- **A release** makes one scope less in use, or one more retained. -/
theorem Tidy.live_release (h : a.Tidy) (hi : i ≠ Arena.global) (hactive : i ∈ a.activeScopes) :
    (a.release i).live + (a.retained + 1) = a.live + (a.release i).retained ∧
      (a.release i).threshold = a.threshold := by
  unfold Arena.release
  rw [if_neg hi]
  split
  · -- captured: the scope stays in use and counts as retained
    have hlive : (a.update i fun s => { s with active := false }).live = a.live :=
      congrArg Prod.fst (counters_update _)
    refine ⟨?_, rfl⟩
    show (a.update i fun s => { s with active := false }).live + (a.retained + 1)
      = a.live + (a.retained + 1)
    rw [hlive]
  · -- not captured: its slot is free again
    have hpositive : 0 < a.activeScopes.length := List.length_pos_of_mem hactive
    have hlive := h.live_eq
    have hsize : a.live = a.slots.size - a.free.length := rfl
    refine ⟨?_, rfl⟩
    show (a.slots.setIfInBounds i none).size - (i :: a.free).length + (a.retained + 1)
      = a.live + a.retained
    rw [Array.size_setIfInBounds, List.length_cons]
    omega

/-! ## The balance -/

/-- The balance since a collection that left `live` scopes. -/
structure Stock (live : Nat) (a : Arena) : Prop where
  threshold : a.threshold = max live minThreshold
  /-- No collection is due. -/
  due : a.retained < a.threshold
  /-- What is neither active nor retained since was left by the collection, but not all of that:
      the global scope is active. -/
  stock : a.live < a.activeScopes.length + a.retained + live

theorem Stock.congr (h : Stock live a) (hcounters : b.counters = a.counters)
    (hactive : b.activeScopes = a.activeScopes) : Stock live b := by
  obtain ⟨hlive, hrest⟩ := Prod.mk.inj hcounters
  obtain ⟨hretained, hthreshold⟩ := Prod.mk.inj hrest
  constructor
  case threshold =>
    rw [hthreshold]
    exact h.threshold
  case due =>
    rw [hthreshold, hretained]
    exact h.due
  case stock =>
    rw [hlive, hactive, hretained]
    exact h.stock

theorem Stock.pushed (h : Stock live a) (htidy : a.Tidy) (p : ScopeId) :
    Stock live (a.pushed p) := by
  obtain ⟨-, -, hperm⟩ := htidy.pushed p
  have hlength := hperm.length_eq
  have hlive := htidy.live_pushed p
  have hstock := h.stock
  rw [List.length_cons] at hlength
  refine ⟨h.threshold, h.due, ?_⟩
  show (a.pushed p).live < (a.pushed p).activeScopes.length + a.retained + live
  omega

/-- The active scope that is released is one less, and one more retained if it stays in use. -/
theorem Stock.release (h : Stock live a) (htidy : a.Tidy) (hi : i ≠ Arena.global)
    (hactive : i ∈ a.activeScopes)
    (hlength : (a.release i).activeScopes.length + 1 = a.activeScopes.length)
    (hdue : (a.release i).shouldCollect = false) : Stock live (a.release i) := by
  obtain ⟨hlive, hthreshold⟩ := htidy.live_release hi hactive
  have hstock := h.stock
  constructor
  case threshold => exact hthreshold.trans h.threshold
  case due => exact Nat.lt_of_not_le (of_decide_eq_false hdue)
  case stock => omega

/-- **A collection** starts a new balance. -/
theorem Tidy.stock_collect (h : a.Tidy) (roots : List ScopeId)
    (capturedBy : Value → Option ScopeId) :
    Stock (a.collect roots capturedBy).2.live (a.collect roots capturedBy).2 := by
  have hglobal := (h.collect roots capturedBy).1.global
  have hpositive : 0 < (a.collect roots capturedBy).2.activeScopes.length :=
    List.length_pos_of_mem hglobal
  have hretained : (a.collect roots capturedBy).2.retained = 0 := rfl
  have hthreshold : (a.collect roots capturedBy).2.threshold
      = max (a.collect roots capturedBy).2.live minThreshold := rfl
  have hmin : minThreshold = 64 := rfl
  constructor
  case threshold => exact hthreshold
  case due => omega
  case stock => omega

/-- **What the balance bounds**: the scopes in use that are no longer active. -/
theorem Stock.retired_lt (h : Stock live a) (htidy : a.Tidy) :
    a.retiredScopes.length < 2 * max live 64 := by
  have hlive := htidy.live_eq
  have hstock := h.stock
  have hdue := h.due
  rw [h.threshold, minThreshold] at hdue
  omega

end Arena

/-! ## Settled machines -/

namespace Machine

variable {m : Machine α} {held : List Value} {i : ScopeId} {v : Value}

/-- Nothing is kept that neither active scopes nor the `held` values need. -/
structure Settled (held : List Value) (m : Machine α) : Prop where
  /-- A scope in use is active, or reached from active scopes and held function values along links
      to the scope around and to the scopes of bound function values. -/
  scopes : ∀ i, (m.arena.scope? i).isSome →
    m.arena.WithinReach (held.filterMap m.capturedBy) m.capturedBy i
  /-- A slot of closures is taken only if a function value that is held or bound names it. -/
  closures : ∀ id, (m.closure? id).isSome →
    ∃ v ∈ held ++ m.arena.values, v.closure? = some id

/-- A value that is held or bound in a scope that stays holds the scope that it held. -/
theorem capturedBy_collect (hv : v ∈ held ++ (m.sweptScopes held).arena.values) :
    (m.collect held).capturedBy v = m.capturedBy v := by
  unfold capturedBy
  cases hid : v.closure? with
  | none => rfl
  | some id =>
    have hkept : id ∉ m.dropped held := fun hmem => (mem_dropped.mp hmem).2 v hv hid
    rw [Option.bind_some, Option.bind_some, closure?_collect, if_neg hkept]

/-- A scope within reach stays. -/
theorem scope?_collect_of_withinReach
    (h : m.arena.WithinReach (held.filterMap m.capturedBy) m.capturedBy i) :
    (m.collect held).arena.scope? i = m.arena.scope? i := by
  have hnot : i ∉ m.lost held := by
    intro hmem
    obtain ⟨s, -, -, hreach⟩ := Arena.mem_garbage_iff.mp hmem
    exact hreach h
  rw [scope?_collect, if_neg hnot]

/-- **Reach is kept**: what leads to a scope within reach is itself within reach. -/
theorem withinReach_collect
    (h : m.arena.WithinReach (held.filterMap m.capturedBy) m.capturedBy i) :
    (m.collect held).arena.WithinReach (held.filterMap (m.collect held).capturedBy)
      (m.collect held).capturedBy i := by
  -- what is within reach is kept
  have hsome : ∀ {j}, m.arena.WithinReach (held.filterMap m.capturedBy) m.capturedBy j →
      ((m.collect held).arena.scope? j).isSome := by
    intro j hj
    rw [scope?_collect_of_withinReach hj]
    exact hj.isSome
  induction h with
  | active hs ha =>
    exact .active ((scope?_collect_of_withinReach (.active hs ha)).trans hs) ha
  -- a value that is held still names the closure
  | @root i hi hused =>
    obtain ⟨v, hv, hcaptured⟩ := List.mem_filterMap.mp hi
    refine .root (List.mem_filterMap.mpr ⟨v, hv, ?_⟩) (hsome (.root hi hused))
    rw [capturedBy_collect (List.mem_append_left _ hv)]
    exact hcaptured
  | around h hs hp hused ih =>
    exact .around ih ((scope?_collect_of_withinReach h).trans hs) hp
      (hsome (.around h hs hp hused))
  -- so does a value that is bound in a scope within reach
  | @bound i j s v h hs hv hj hused ih =>
    have hscope := (scope?_collect_of_withinReach h).trans hs
    refine .bound ih hscope hv ?_ (hsome (.bound h hs hv hj hused))
    rw [collect_eq] at hscope
    rw [capturedBy_collect (List.mem_append_right _ (Arena.mem_values hscope hv))]
    exact hj

/-- **A collection settles the machine**, whatever its state was. -/
theorem settled_collect (m : Machine α) (held : List Value) : Settled held (m.collect held) := by
  constructor
  case scopes =>
    intro i hi
    refine withinReach_collect ?_
    rw [scope?_collect] at hi
    split at hi
    case isTrue => exact absurd hi (by simp)
    case isFalse hnot =>
      obtain ⟨s, hs⟩ := Option.isSome_iff_exists.mp hi
      by_cases ha : s.active = true
      · exact .active hs ha
      · refine Classical.byContradiction fun hreach => hnot (Arena.mem_garbage_iff.mpr ?_)
        exact ⟨s, hs, Bool.eq_false_iff.mpr ha, hreach⟩
  case closures =>
    intro id hid
    rw [closure?_collect] at hid
    split at hid
    case isTrue => exact absurd hid (by simp)
    case isFalse hnot =>
      -- kept, so some value names it
      refine Classical.byContradiction fun hnone => hnot (mem_dropped.mpr ⟨hid, ?_⟩)
      intro v hv hname
      refine hnone ⟨v, ?_, hname⟩
      rw [collect_eq]
      exact hv

end Machine

/-! ## Ends of scopes -/

namespace ScopeEnd

variable {limits : Limits} {e : ScopeEnd α} {live : Nat}

/-- The machine when the scope has ended. -/
def after (limits : Limits) (e : ScopeEnd α) : Machine α :=
  e.machine.endScope (.reclaiming limits) e.held e.scope

/-- Whether there is a collection when the scope ends. -/
def collects (e : ScopeEnd α) : Bool := (e.machine.arena.release e.scope).shouldCollect

/-- The number of scopes left by the latest collection, when `live` was the number before. -/
def latest (limits : Limits) (live : Nat) (e : ScopeEnd α) : Nat :=
  if e.collects then (e.after limits).arena.live else live

/-- The number of scopes left by the latest collection in the course of these ends, when `live` was
    the number before. -/
def latestLive (limits : Limits) (live : Nat) (ends : List (ScopeEnd α)) : Nat :=
  ends.foldl (latest limits) live

theorem latestLive_append (live : Nat) (ends ends' : List (ScopeEnd α)) :
    latestLive limits live (ends ++ ends') = latestLive limits (latestLive limits live ends) ends' :=
  List.foldl_append

theorem latestLive_concat (live : Nat) (ends : List (ScopeEnd α)) (e : ScopeEnd α) :
    latestLive limits live (ends ++ [e]) = e.latest limits (latestLive limits live ends) :=
  latestLive_append live ends [e]

theorem after_eq (limits : Limits) (e : ScopeEnd α) : e.after limits =
    if e.collects then
      Machine.collect { e.machine with arena := e.machine.arena.release e.scope } e.held
    else { e.machine with arena := e.machine.arena.release e.scope } := rfl

/-- **A collection at the end of a scope** settles the machine. -/
theorem settled_after (h : e.collects = true) : Machine.Settled e.held (e.after limits) := by
  rw [after_eq, if_pos h]
  exact Machine.settled_collect _ _

/-- **The end of a scope** settles what its body opened, or starts a new balance. -/
theorem stock_after (h : Arena.Stock live e.machine.arena) (htidy : e.machine.arena.Tidy)
    (hscope : e.scope ≠ Arena.global) (hactive : e.scope ∈ e.machine.arena.activeScopes)
    (hlength : (e.after limits).arena.activeScopes.length + 1
      = e.machine.arena.activeScopes.length) :
    Arena.Stock (e.latest limits live) (e.after limits).arena := by
  unfold latest
  rw [after_eq] at hlength ⊢
  by_cases hcollects : e.collects = true
  · have hrelease := (htidy.release hscope hactive).1
    rw [if_pos hcollects, if_pos hcollects, Machine.collect_eq]
    exact hrelease.stock_collect _ _
  · rw [if_neg hcollects] at hlength
    rw [if_neg hcollects, if_neg hcollects]
    exact h.release htidy hscope hactive hlength (Bool.eq_false_iff.mpr hcollects)

end ScopeEnd

/-! ## Along a course -/

namespace Machine

variable {m k : Machine α} {s : ScopeId}

theorem bindParams_counters (s : ScopeId) (params : List String) (values : List Value)
    (m : Machine α) : (Eval.bindParams s params values m).arena.counters = m.arena.counters :=
  Eval.bindParams_keeps (P := fun k => k.arena.counters = m.arena.counters)
    (fun _ _ _ hk => (Arena.counters_update _).trans hk) params values rfl

/-- **Touching** the current scope changes no counter. -/
theorem Touches.counters (h : m.Touches s k) : k.arena.counters = m.arena.counters := by
  cases h with
  | count depth calls => rfl
  | declare x v => exact Arena.counters_update _
  | bindParams params values => exact bindParams_counters s params values m
  | assign x v => exact Arena.counters_update _
  | define f params body =>
    rw [define_eq]
    exact (Arena.counters_update _).trans (Arena.counters_capture _ _)
  | print segment => rfl

/-- Whether fewer scopes are active after a step than before. -/
def closes (step : Machine α × Machine α) : Bool :=
  step.2.arena.activeScopes.length < step.1.arena.activeScopes.length

end Machine

namespace Course

variable {limits : Limits} {here : Option ScopeId} {m : Machine α} {new : List (Machine α)}
  {ends : List (ScopeEnd α)}

/-- What is left at an end of a scope is one of the states passed. -/
theorem after_mem (h : Course (.reclaiming limits) here m new ends) :
    ∀ e ∈ ends, e.after limits ∈ new := by
  generalize hsettings : Settings.reclaiming limits = settings at h
  induction h with
  | stay => exact fun e he => absurd he List.not_mem_nil
  | touch => exact fun e he => absurd he List.not_mem_nil
  -- the ends of the second stretch come behind those of the first
  | andThen first second ihFirst ihSecond =>
    intro e he
    rcases List.mem_append.mp he with he | he
    · exact List.mem_append_right _ (ihFirst e he)
    · exact List.mem_append_left _ (ihSecond e he)
  | nested hp inner held ih =>
    intro e he
    rcases List.mem_append.mp he with he | he
    · exact List.mem_cons_of_mem _ (List.mem_append_left _ (ih e he))
    · -- the scope of this nesting ends last
      rw [List.mem_singleton.mp he]
      subst hsettings
      exact List.mem_cons_self ..

/-- What is known of active scopes when the body of a nested course has been run. -/
theorem active_nested {p : ScopeId} (hm : m.Steady) (hp : (m.arena.scope? p).isSome)
    (h : Upkeep (m.opening p) new) (limits : Limits) (held : List Value) :
    m.arena.nextSlot p ∈ (new.headD (m.opening p)).arena.activeScopes ∧
    (new.headD (m.opening p)).arena.activeScopes.length = m.arena.activeScopes.length + 1 ∧
    ((new.headD (m.opening p)).endScope (.reclaiming limits) held
      (m.arena.nextSlot p)).arena.activeScopes = m.arena.activeScopes := by
  obtain ⟨-, -, hperm⟩ := hm.arena.tidy.pushed p
  refine ⟨?_, ?_, (h.nested hm hp limits held).active⟩
  · rw [h.active]
    exact hperm.mem_iff.mpr (List.mem_cons_self ..)
  · rw [h.active]
    exact hperm.length_eq

/-- **The ends of scopes are the steps in which a scope stops being active**, with no others. -/
theorem filter_closes (h : Course (.reclaiming limits) here m new ends) (hm : m.Steady)
    (hhere : ∀ s, here = some s → s ∈ m.arena.activeScopes) :
    (m.stepsFrom new).filter Machine.closes
      = ends.reverse.map fun e => (e.machine, e.after limits) := by
  generalize hsettings : Settings.reclaiming limits = settings at h
  induction h with
  | stay => rfl
  | @touch s m k h =>
    have hactive := (h.unmoved hm (Arena.isSome_of_mem_activeScopes (hhere _ rfl))).active
    have hnot : ¬Machine.closes (m, k) = true := by
      unfold Machine.closes
      rw [hactive, decide_eq_true_eq]
      exact Nat.lt_irrefl _
    exact List.filter_cons_of_neg hnot
  | andThen first second ihFirst ihSecond =>
    have hupkeep := (hsettings ▸ first).upkeep hm hhere
    rw [Machine.stepsFrom_append, List.filter_append, List.reverse_append, List.map_append,
      ihFirst hm hhere, ihSecond (hupkeep.steady_headD hm) (hupkeep.active ▸ hhere)]
  | @nested here m p new ends hp inner held ih =>
    have hsome := hm.isSome_of_opens hhere hp
    have hopen := hm.opening hsome
    have hinner := hm.current_opening p
    subst hsettings
    obtain ⟨-, hlength, hactive⟩ :=
      active_nested hm hsome (inner.upkeep hopen hinner) limits held
    -- the last step closes the scope, the first one opens it
    have hlast : Machine.closes (new.headD (m.opening p),
        (new.headD (m.opening p)).endScope (.reclaiming limits) held (m.arena.nextSlot p))
        = true := by
      unfold Machine.closes
      rw [hactive, hlength, decide_eq_true_eq]
      exact Nat.lt_succ_self _
    have hfirst : ¬Machine.closes (m, m.opening p) = true := by
      obtain ⟨-, -, hperm⟩ := hm.arena.tidy.pushed p
      have hopened : (m.opening p).arena.activeScopes.length = m.arena.activeScopes.length + 1 :=
        hperm.length_eq
      unfold Machine.closes
      rw [hopened, decide_eq_true_eq]
      exact Nat.not_lt.mpr (Nat.le_succ _)
    rw [Machine.stepsFrom_nested, List.filter_cons_of_pos hlast, List.filter_append,
      ih hopen hinner, List.filter_cons_of_neg hfirst, List.reverse_append, List.map_append]
    exact congrArg (_ :: ·) (List.append_nil _)

/-- **The balance holds along a course**, at every end of a scope and when it is over. -/
theorem stock (h : Course (.reclaiming limits) here m new ends) (hm : m.Steady)
    (hhere : ∀ s, here = some s → s ∈ m.arena.activeScopes) (live : Nat)
    (hstock : Arena.Stock live m.arena) :
    (∀ past e, past ++ [e] <+: ends →
      Arena.Stock (ScopeEnd.latestLive limits live (past ++ [e])) (e.after limits).arena) ∧
    Arena.Stock (ScopeEnd.latestLive limits live ends) (new.headD m).arena := by
  generalize hsettings : Settings.reclaiming limits = settings at h
  induction h generalizing live with
  | stay => exact ⟨fun past e h => absurd (List.prefix_nil.mp h) (by simp), hstock⟩
  | @touch s m k h =>
    have hactive := (h.unmoved hm (Arena.isSome_of_mem_activeScopes (hhere _ rfl))).active
    exact ⟨fun past e h => absurd (List.prefix_nil.mp h) (by simp),
      hstock.congr h.counters hactive⟩
  | @andThen here m new new' ends ends' first second ihFirst ihSecond =>
    have hupkeep := (hsettings ▸ first).upkeep hm hhere
    obtain ⟨hends, hlast⟩ := ihFirst hm hhere live hstock
    obtain ⟨hends', hlast'⟩ :=
      ihSecond (hupkeep.steady_headD hm) (hupkeep.active ▸ hhere) _ hlast
    refine ⟨fun past e hprefix => ?_, ?_⟩
    · rcases List.prefix_or_prefix_of_prefix hprefix (List.prefix_append ends ends')
        with hfirst | hsecond
      · exact hends past e hfirst
      · -- the end comes in the first part, or the first part is past
        rcases List.prefix_concat_iff.mp hsecond with heq | ⟨past', rfl⟩
        · exact hends past e (heq ▸ List.prefix_refl _)
        · rw [List.append_assoc, List.prefix_append_right_inj] at hprefix
          rw [List.append_assoc, ScopeEnd.latestLive_append]
          exact hends' past' e hprefix
    · rw [Machine.headD_append, ScopeEnd.latestLive_append]
      exact hlast'
  | @nested here m p new ends hp inner held ih =>
    have hsome := hm.isSome_of_opens hhere hp
    have hopen := hm.opening hsome
    have htidy := hm.arena.tidy
    obtain ⟨-, hglobal, -⟩ := htidy.pushed p
    have hinner := hm.current_opening p
    subst hsettings
    have hupkeep := inner.upkeep hopen hinner
    obtain ⟨hid, hlength, hactive⟩ := active_nested hm hsome hupkeep limits held
    obtain ⟨hends, hlast⟩ := ih hopen hinner live (hstock.pushed htidy p)
    let e : ScopeEnd α := ⟨new.headD (m.opening p), held, m.arena.nextSlot p⟩
    have hafter : Arena.Stock (e.latest limits (ScopeEnd.latestLive limits live ends))
        (e.after limits).arena :=
      ScopeEnd.stock_after hlast (hupkeep.steady_headD hopen).arena.tidy hglobal hid
        ((congrArg (·.length + 1) hactive).trans hlength.symm)
    rw [← ScopeEnd.latestLive_concat] at hafter
    refine ⟨fun past e hprefix => ?_, hafter⟩
    rcases List.prefix_concat_iff.mp hprefix with heq | hprefix
    · obtain ⟨hpast, he⟩ := List.append_inj' heq rfl
      rw [hpast, List.singleton_inj.mp he]
      exact hafter
    · exact hends past e hprefix

end Course

/-! ## The result -/

namespace Machine

theorem stock_initial : Arena.Stock 1 (initial : Machine α).arena :=
  ⟨rfl, (by decide : 0 < 64), (by decide : 1 < 1 + 0 + 1)⟩

/-- **Scopes that are no longer active do not pile up.**  Run programs one after another on a fresh
    machine, each with a bound on its steps.  The ends of scopes logged are those of the run: the
    steps in which a scope stops being active.  After each of them the scopes in use that are no
    longer active are fewer than twice the number that the latest collection left, or twice the
    least number that makes a collection due; and right after each collection the machine is
    settled. -/
theorem stock_bounded (limits : Limits) (steps : List (Nat × Program α)) :
    let watched := (Watch.start initial).runAll (.reclaiming limits) steps
    let ends := initial.scopeEnds (.reclaiming limits) steps
    (watched.1, watched.2.machine) = initial.runAll (.reclaiming limits) steps ∧
    watched.2.steps.filter closes = ends.reverse.map (fun e => (e.machine, e.after limits)) ∧
    ∀ past e, past ++ [e] <+: ends →
      (e.after limits).arena.retiredScopes.length
        < 2 * max (ScopeEnd.latestLive limits 1 (past ++ [e])) 64 ∧
      (e.collects = true → Settled e.held (e.after limits)) := by
  intro watched
  obtain ⟨new, ends, hpassed, hends, -, hcourse⟩ :=
    Watch.runAll_follows (.reclaiming limits) steps (.start (initial (α := α)))
  -- the log of the run is the one of its course, in order
  have hlog : initial.scopeEnds (.reclaiming limits) steps = ends := by
    rw [scopeEnds, hends]
    simp [Watch.start]
  rw [hlog]
  have hhere : ∀ s, some Arena.global = some s →
      s ∈ (initial : Machine α).arena.activeScopes :=
    fun s hs => Option.some.inj hs ▸ tidy_initial.global
  refine ⟨Watch.runAll_eq _ steps (.start initial), ?_, ?_⟩
  · rw [Watch.steps_eq hpassed]
    exact hcourse.filter_closes steady_initial hhere
  · -- at each end: the balance bounds what is retired, and a collection has settled it
    intro past e hprefix
    have hmem : e ∈ ends := hprefix.subset (List.mem_append_right _ (List.mem_singleton.mpr rfl))
    have hsteady := (hcourse.upkeep steady_initial hhere).steady _ (hcourse.after_mem e hmem)
    obtain ⟨hbalance, -⟩ := hcourse.stock steady_initial hhere 1 stock_initial
    exact ⟨(hbalance past e hprefix).retired_lt hsteady.arena.tidy, ScopeEnd.settled_after⟩

/-- A block that defines a function leaves one scope that is no longer active. -/
theorem stock_bounded_helper :
    let block : Program Unit := ⟨[.block () [.function () "f" [] []]]⟩
    ∃ e, [] ++ [e] <+: initial.scopeEnds (.reclaiming {}) [(3, block)] ∧
      e.collects = false ∧ (e.after {}).arena.retiredScopes = [1] ∧
      (e.after {}).arena.retiredScopes.length < 2 * max (ScopeEnd.latestLive {} 1 [e]) 64 := by
  intro block
  obtain ⟨-, -, hends⟩ := stock_bounded {} [(3, block)]
  have hprefix : [] ++ [_] <+: (initial : Machine Unit).scopeEnds (.reclaiming {}) [(3, block)] :=
    List.prefix_refl _
  exact ⟨_, hprefix, rfl, rfl, (hends [] _ hprefix).1⟩

end Machine

end Scriptlet
