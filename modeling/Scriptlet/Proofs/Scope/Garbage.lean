/-
  Garbage: a collection empties exactly the scopes that nothing reaches.

  1. **Reach** (`Arena.WithinReach`) — what can be reached from active scopes and from roots in use,
     outward and through the values bound on the way.  Links may run in circles.
  2. **Marks** (`Arena.marked_reached_iff`) — marking is sound, as it passes from scopes within reach
     to their neighbours only, and complete, as the marks that come out are closed under links.
  3. **Turns** (`Arena.mark_turns`) — the loop that marks comes to its end.  A turn takes one scope
     off the list and puts the neighbours of a scope on it only when the scope is marked for the
     first time, so there are no more turns than scopes to begin with and links to follow.
  4. **Collection** (`Arena.collect_exact`) — what is emptied, what is left as it was, and the
     counters.
-/
import Mathlib.Algebra.Order.BigOperators.Group.Finset
import Scriptlet.Proofs.Scope.Representation

namespace Scriptlet.Arena

open Finset (sum_congr sum_le_sum add_sum_erase)

variable {a : Arena} {roots : List ScopeId} {capturedBy : Value → Option ScopeId}
  {i j p : ScopeId} {s : Scope} {v : Value}

/-! ## Reach -/

/-- The scopes in use that are reached from active scopes and from roots in use, along links to the
    scope around and to the scopes that bound values hold. -/
inductive WithinReach (a : Arena) (roots : List ScopeId) (capturedBy : Value → Option ScopeId) :
    ScopeId → Prop
  | active {i : ScopeId} {s : Scope} (hs : a.scope? i = some s) (ha : s.active = true) :
      WithinReach a roots capturedBy i
  | root {i : ScopeId} (hi : i ∈ roots) (hsome : (a.scope? i).isSome) :
      WithinReach a roots capturedBy i
  | around {i p : ScopeId} {s : Scope} (h : WithinReach a roots capturedBy i)
      (hs : a.scope? i = some s) (hp : s.parent = some p) (hsome : (a.scope? p).isSome) :
      WithinReach a roots capturedBy p
  | bound {i j : ScopeId} {s : Scope} {v : Value} (h : WithinReach a roots capturedBy i)
      (hs : a.scope? i = some s) (hv : v ∈ s.bindings.values) (hj : capturedBy v = some j)
      (hsome : (a.scope? j).isSome) : WithinReach a roots capturedBy j

/-- A scope in use that is neither active nor within reach. -/
def IsGarbage (a : Arena) (roots : List ScopeId) (capturedBy : Value → Option ScopeId)
    (i : ScopeId) : Prop :=
  ∃ s, a.scope? i = some s ∧ s.active = false ∧ ¬a.WithinReach roots capturedBy i

theorem WithinReach.isSome (h : a.WithinReach roots capturedBy i) : (a.scope? i).isSome := by
  cases h with
  | active hs _ =>
    rw [hs]
    rfl
  | root _ hsome | around _ _ _ hsome | bound _ _ _ _ hsome => exact hsome

theorem WithinReach.neighbour (h : a.WithinReach roots capturedBy i) (hs : a.scope? i = some s)
    (hj : j ∈ neighbours capturedBy s) (hsome : (a.scope? j).isSome) :
    a.WithinReach roots capturedBy j := by
  rcases List.mem_append.mp hj with hparent | hbound
  · exact .around h hs (Option.mem_toList.mp hparent) hsome
  · obtain ⟨v, hv, hcaptured⟩ := List.mem_filterMap.mp hbound
    exact .bound h hs hv hcaptured hsome

/-! ## Marks -/

/-- **Marking is sound**: it marks what is within reach, if the marks and the pending scopes to begin
    with are. -/
theorem mark_sound (a : Arena) (capturedBy : Value → Option ScopeId) (pending : List ScopeId)
    (marked : Array Bool) (hmarked : ∀ j, Marked marked j → a.WithinReach roots capturedBy j)
    (hpending : ∀ j ∈ pending, (a.scope? j).isSome → a.WithinReach roots capturedBy j) :
    ∀ j, Marked (a.mark capturedBy pending marked) j → a.WithinReach roots capturedBy j := by
  fun_induction mark a capturedBy pending marked with
  | case1 marked => exact hmarked
  | case2 marked id pending hnone ih =>
    exact ih hmarked fun j hj => hpending j (List.mem_cons_of_mem id hj)
  | case3 marked id pending s hs h ih =>
    have hid : a.WithinReach roots capturedBy id :=
      hpending id (List.mem_cons_self ..) (by rw [hs]; rfl)
    refine ih (fun j hj => ?_) fun j hj hsome => ?_
    · rcases (marked_set h.1).mp hj with rfl | hj
      · exact hid
      · exact hmarked j hj
    · rcases List.mem_append.mp hj with hj | hj
      · exact hid.neighbour hs hj hsome
      · exact hpending j (List.mem_cons_of_mem id hj) hsome
  | case4 marked id pending s hs h ih =>
    exact ih hmarked fun j hj => hpending j (List.mem_cons_of_mem id hj)

/-- **What is marked is what is within reach.** -/
theorem marked_reached_iff :
    Marked (a.reached roots capturedBy) i ↔ a.WithinReach roots capturedBy i := by
  constructor
  · refine mark_sound a capturedBy _ _ (fun j hj => ?_) (fun j hj hsome => ?_) i
    · rw [Marked, Array.getElem?_replicate] at hj
      split at hj <;> exact absurd hj (by simp)
    · rcases List.mem_append.mp hj with hj | hj
      · exact .root hj hsome
      · obtain ⟨s, hs⟩ := Option.isSome_iff_exists.mp hsome
        have ha := (List.mem_filter.mp hj).2
        rw [hs] at ha
        exact .active hs ha
  · intro h
    obtain ⟨hstart, hclosed⟩ := reached_spec a roots capturedBy
    have hlink : ∀ {i j s}, a.scope? i = some s → Marked (a.reached roots capturedBy) i →
        j ∈ neighbours capturedBy s → (a.scope? j).isSome →
        Marked (a.reached roots capturedBy) j := fun hs hi hj hsome =>
      (hclosed _ _ hs hi _ hj hsome).resolve_right List.not_mem_nil
    induction h with
    | active hs ha =>
      exact hstart _ (List.mem_append_right _ (mem_activeScopes hs ha)) (by rw [hs]; rfl)
    | root hi hsome => exact hstart _ (List.mem_append_left _ hi) hsome
    | around _ hs hp hsome ih =>
      exact hlink hs ih (List.mem_append_left _ (Option.mem_toList.mpr hp)) hsome
    | bound _ hs hv hj hsome ih =>
      exact hlink hs ih (List.mem_append_right _ (List.mem_filterMap.mpr ⟨_, hv, hj⟩)) hsome

theorem mem_garbage_iff :
    i ∈ a.garbage roots capturedBy ↔ a.IsGarbage roots capturedBy i := by
  rw [mem_garbage, IsGarbage]
  simp only [marked_reached_iff]

/-! ## Turns -/

/-- One turn of the loop that marks: the first pending scope is taken off the list, and if it is
    marked for the first time its neighbours are put on it. -/
def markTurn (a : Arena) (capturedBy : Value → Option ScopeId) :
    List ScopeId × Array Bool → List ScopeId × Array Bool
  | ([], marked) => ([], marked)
  | (id :: pending, marked) =>
    match a.scope? id with
    | none => (pending, marked)
    | some s =>
      if h : ∃ bound : id < marked.size, marked[id] = false then
        (neighbours capturedBy s ++ pending, marked.set id true h.1)
      else (pending, marked)

/-- Number of links from a scope. -/
def links (a : Arena) (capturedBy : Value → Option ScopeId) (i : ScopeId) : Nat :=
  ((a.scope? i).map fun s => (neighbours capturedBy s).length).getD 0

/-- Number of links from scopes that are not marked. -/
def linksAhead (a : Arena) (capturedBy : Value → Option ScopeId) (marked : Array Bool) : Nat :=
  ∑ i ∈ Finset.range a.slots.size,
    if marked[i]? = some true then 0 else a.links capturedBy i

/-- A new mark takes the links of its scope from those ahead. -/
theorem linksAhead_set (capturedBy : Value → Option ScopeId) {marked : Array Bool} (hs : a.scope? i = some s) (hi : i < marked.size)
    (hnot : marked[i] = false) :
    (neighbours capturedBy s).length + a.linksAhead capturedBy (marked.set i true hi)
      = a.linksAhead capturedBy marked := by
  have hmem : i ∈ Finset.range a.slots.size := Finset.mem_range.mpr (Slots.lt_size hs)
  have hunmarked : ¬marked[i]? = some true := by
    rw [Array.getElem?_eq_getElem hi, hnot]
    exact fun heq => absurd heq (by simp)
  have hset : ∀ j, (marked.set i true hi)[j]? = some true ↔ j = i ∨ marked[j]? = some true :=
    fun j => marked_set hi
  have hlinks : a.links capturedBy i = (neighbours capturedBy s).length := by
    rw [links, hs]
    rfl
  unfold linksAhead
  rw [← add_sum_erase _ _ hmem, ← add_sum_erase _ (fun j => ite (marked[j]? = some true) _ _) hmem,
    if_pos ((hset i).mpr (.inl rfl)), if_neg hunmarked, hlinks, Nat.zero_add]
  refine congrArg _ (sum_congr rfl fun j hj => ?_)
  have hne : j ≠ i := (Finset.mem_erase.mp hj).1
  simp only [hset, hne, false_or]

/-- **The loop comes to its end**, with the marks that `mark` gives, after no more turns than there
    are pending scopes and links ahead. -/
theorem mark_turns (a : Arena) (capturedBy : Value → Option ScopeId) (pending : List ScopeId)
    (marked : Array Bool) : ∃ turns ≤ pending.length + a.linksAhead capturedBy marked,
      (a.markTurn capturedBy)^[turns] (pending, marked)
        = ([], a.mark capturedBy pending marked) := by
  fun_induction mark a capturedBy pending marked with
  | case1 marked => exact ⟨0, Nat.zero_le _, rfl⟩
  | case2 marked id pending hnone ih =>
    obtain ⟨turns, hturns, hend⟩ := ih
    refine ⟨turns + 1, by rw [List.length_cons]; omega, ?_⟩
    rw [Function.iterate_succ_apply, ← hend, markTurn, hnone]
  | case3 marked id pending s hs h ih =>
    obtain ⟨turns, hturns, hend⟩ := ih
    have hahead := linksAhead_set capturedBy hs h.1 h.2
    rw [List.length_append] at hturns
    refine ⟨turns + 1, by rw [List.length_cons]; omega, ?_⟩
    rw [Function.iterate_succ_apply, ← hend, markTurn, hs]
    dsimp only
    rw [dif_pos h]
  | case4 marked id pending s hs h ih =>
    obtain ⟨turns, hturns, hend⟩ := ih
    refine ⟨turns + 1, by rw [List.length_cons]; omega, ?_⟩
    rw [Function.iterate_succ_apply, ← hend, markTurn, hs]
    dsimp only
    rw [dif_neg h]

theorem linksAhead_le (a : Arena) (capturedBy : Value → Option ScopeId) (marked : Array Bool) :
    a.linksAhead capturedBy marked ≤ ∑ i ∈ Finset.range a.slots.size, a.links capturedBy i := by
  refine sum_le_sum fun i _ => ?_
  split
  · exact Nat.zero_le _
  · exact Nat.le_refl _

/-! ## Collection -/

/-- **A collection frees exactly the garbage**, whatever the roots and the links of values, and
    leaves every other scope as it was. -/
theorem collect_exact (h : Representation a) (roots : List ScopeId)
    (capturedBy : Value → Option ScopeId) :
    Representation (a.collect roots capturedBy).2 ∧
    (∀ i, a.IsGarbage roots capturedBy i → (a.collect roots capturedBy).2.scope? i = none) ∧
    (∀ i, ¬a.IsGarbage roots capturedBy i →
      (a.collect roots capturedBy).2.scope? i = a.scope? i) ∧
    (∃ freed : List ScopeId, freed.Pairwise (· < ·) ∧
      (∀ i, i ∈ freed ↔ a.IsGarbage roots capturedBy i) ∧
      (a.collect roots capturedBy).1 = freed.length ∧
      (a.collect roots capturedBy).2.free = freed.reverse ++ a.free) ∧
    (a.collect roots capturedBy).2.live + (a.collect roots capturedBy).1 = a.live ∧
    (a.collect roots capturedBy).2.retained = 0 ∧
    (a.collect roots capturedBy).2.threshold = max (a.collect roots capturedBy).2.live 64 ∧
    ∃ turns ≤ roots.length + a.activeScopes.length
        + ∑ i ∈ Finset.range a.slots.size, a.links capturedBy i,
      (a.markTurn capturedBy)^[turns]
          (roots ++ a.activeScopes, Array.replicate a.slots.size false)
        = ([], a.reached roots capturedBy) := by
  have hvalid := h.valid.collect roots capturedBy
  -- the slots that are freed go to the front of the free list, the last one first
  have hfree : (a.collect roots capturedBy).2.free
      = (a.garbage roots capturedBy).reverse ++ a.free := by
    show (a.sweep (a.garbage roots capturedBy)).free = _
    rw [sweep_eq]
  have hsize : (a.collect roots capturedBy).2.slots.size = a.slots.size := by
    show (a.sweep (a.garbage roots capturedBy)).slots.size = _
    rw [sweep_eq]
    exact Slots.size_clearAll _
  refine ⟨hvalid.toRepresentation, fun i hi => ?_, fun i hi => ?_,
    ⟨a.garbage roots capturedBy, ?_, fun i => mem_garbage_iff, rfl, hfree⟩, ?_, rfl, rfl, ?_⟩
  · rw [scope?_collect, if_pos (mem_garbage_iff.mpr hi)]
  · rw [scope?_collect, if_neg fun hmem => hi (mem_garbage_iff.mp hmem)]
  · -- they are freed in the order of their numbers
    exact List.pairwise_lt_range.sublist List.filter_sublist
  · -- each of them was counted as live
    have hslots := hvalid.free.length_add_count
    rw [hfree, hsize, List.length_append, List.length_reverse] at hslots
    show (a.collect roots capturedBy).2.slots.size - (a.collect roots capturedBy).2.free.length
      + (a.garbage roots capturedBy).length = a.slots.size - a.free.length
    rw [hfree, hsize, List.length_append, List.length_reverse]
    omega
  · -- the marking ends, after no more turns than there are links to follow
    obtain ⟨turns, hturns, hend⟩ := mark_turns a capturedBy (roots ++ a.activeScopes)
      (Array.replicate a.slots.size false)
    have hahead := a.linksAhead_le capturedBy (Array.replicate a.slots.size false)
    rw [List.length_append] at hturns
    exact ⟨turns, by omega, hend⟩

/-- The scopes in slots 1 and 2 hold each other, by functions numbered as the scopes they were
    defined in; the one in slot 3 is held by nothing.  All three are captured and released. -/
def tangled : Arena :=
  [Operation.push 0, .push 0, .push 0, .capture 1, .capture 2, .capture 3,
    .declare 1 "f" (.function 2 "f"), .declare 2 "g" (.function 1 "g"),
    .release 1, .release 2, .release 3].foldl (fun a op => op.apply a) empty

/-- In the tangled arena every scope lies in the global one, so none is in the way of a release. -/
theorem representation_tangled : Representation tangled := by
  have opened := Reachable.step (.push 0) (.step (.push 0) (.step (.push 0) .empty rfl) rfl) rfl
  have captured := ((opened.step (.capture 1) rfl).step (.capture 2) rfl).step (.capture 3) rfl
  have bound := (captured.step (.declare 1 "f" (.function 2 "f")) rfl).step
    (.declare 2 "g" (.function 1 "g")) rfl
  have first := bound.step (.release 1) (Operation.allowed_release ⟨_, rfl, rfl⟩ (by decide))
  have second := first.step (.release 2) (Operation.allowed_release ⟨_, rfl, rfl⟩ (by decide))
  have third := second.step (.release 3) (Operation.allowed_release ⟨_, rfl, rfl⟩ (by decide))
  exact third.valid.toRepresentation

/-- Slots 1 and 2 are emptied, though each of them holds the other, and slot 3 stays as a root. -/
theorem collect_exact_tangled :
    Representation tangled ∧
    (tangled.collect [3] Value.closure?).2.scope? 1 = none ∧
    (tangled.collect [3] Value.closure?).2.scope? 2 = none ∧
    (tangled.collect [3] Value.closure?).2.scope? 3 = tangled.scope? 3 := by
  obtain ⟨-, hfreed, hkept, -⟩ := collect_exact representation_tangled [3] Value.closure?
  -- what is within reach are the global scope, which binds nothing, and the root
  have hreach : ∀ i, tangled.WithinReach [3] Value.closure? i → i = 0 ∨ i = 3 := by
    intro i hi
    induction hi with
    | @active i s hs ha =>
      match i with
      | 0 => exact .inl rfl
      | 1 | 2 | 3 => cases hs; exact absurd ha (by decide)
      | i + 4 =>
        have hlt : i + 4 < 4 := Slots.lt_size hs
        exact absurd hlt (Nat.not_lt.mpr (Nat.le_add_left 4 i))
    | root hi _ => exact .inr (List.mem_singleton.mp hi)
    | around _ hs hp _ ih =>
      rcases ih with rfl | rfl
      · cases hs
        exact nomatch hp
      · cases hs
        exact .inl (Option.some.inj hp).symm
    | bound _ hs hv _ _ ih =>
      rcases ih with rfl | rfl
      · cases hs
        exact absurd hv List.not_mem_nil
      · cases hs
        exact absurd hv List.not_mem_nil
  have hgarbage : ∀ i s, tangled.scope? i = some s → s.active = false → i ≠ 0 → i ≠ 3 →
      tangled.IsGarbage [3] Value.closure? i := fun i s hs ha h0 h3 =>
    ⟨s, hs, ha, fun hi => (hreach i hi).elim h0 h3⟩
  refine ⟨representation_tangled, hfreed 1 (hgarbage 1 _ rfl rfl (by decide) (by decide)),
    hfreed 2 (hgarbage 2 _ rfl rfl (by decide) (by decide)), hkept 3 ?_⟩
  rintro ⟨s, -, -, hnot⟩
  exact hnot (.root (List.mem_singleton.mpr rfl) rfl)

end Scriptlet.Arena
