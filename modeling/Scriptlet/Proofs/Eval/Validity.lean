/-
  Valid machines: nothing that is still needed was given away.

  1. **Names** — a function value names a closure that is in the table.
  2. **The invariant (`Machine.Valid`)** — every bound and every held function value names a
     closure; the scope of every closure is captured; the active scopes are those opened and not
     yet ended, innermost first, and none of them lies inside one that was opened after it.
  3. **Ending a scope** (`Machine.Valid.endScope`) — the innermost scope may be ended.  If it is not
     captured its slot is emptied at once: a scope inside it would be captured, and then it would be
     captured itself, or active, and then it would have ended before.
-/
import Scriptlet.Eval.Machine
import Scriptlet.Proofs.Scope.Marking

namespace Scriptlet

/-! ## Bindings -/

theorem Bindings.mem_values_put {b : Bindings} {x : String} {v w : Value}
    (h : w ∈ (b.put x v).values) : w = v ∨ w ∈ b.values := by
  induction b with
  | nil => exact .inl (List.mem_singleton.mp h)
  | cons entry rest ih =>
    obtain ⟨y, u⟩ := entry
    rw [put] at h
    split at h
    · rcases List.mem_cons.mp h with h | h
      · exact .inl h
      · exact .inr (List.mem_cons_of_mem _ h)
    · rcases List.mem_cons.mp h with h | h
      · exact .inr (List.mem_cons.mpr (.inl h))
      · exact (ih h).imp id (List.mem_cons_of_mem _)

theorem Arena.mem_values {a : Arena} {i : ScopeId} {s : Scope} {v : Value}
    (hs : a.scope? i = some s) (hv : v ∈ s.bindings.values) : v ∈ a.values := by
  have hslot : a.slots[i]? = some (some s) := Option.join_eq_some_iff.mp hs
  refine List.mem_flatMap.mpr ⟨some s, ?_, hv⟩
  rw [Array.mem_toList_iff]
  exact Array.mem_of_getElem? hslot

theorem Arena.exists_of_mem_values {a : Arena} {v : Value} (h : v ∈ a.values) :
    ∃ i s, a.scope? i = some s ∧ v ∈ s.bindings.values := by
  obtain ⟨slot, hslot, hv⟩ := List.mem_flatMap.mp h
  cases slot with
  | none => exact absurd hv List.not_mem_nil
  | some s =>
    obtain ⟨i, hi⟩ := Array.getElem?_of_mem (Array.mem_toList_iff.mp hslot)
    exact ⟨i, s, Option.join_eq_some_iff.mpr hi, hv⟩

namespace Machine

variable {α : Type} {m : Machine α} {stack : List ScopeId} {held : List Value} {i p : ScopeId}
  {v : Value}

/-- The machine with one more scope open. -/
def opening (m : Machine α) (p : ScopeId) : Machine α := { m with arena := m.arena.pushed p }

/-- The number of the next closure. -/
def nextClosure (m : Machine α) (c : Closure α) : Nat :=
  (Slots.fill m.closures m.freeClosures c).1

/-- The machine with one more closure. -/
def defined (m : Machine α) (c : Closure α) : Machine α :=
  { m with
    arena := m.arena.capture c.scope
    closures := (Slots.fill m.closures m.freeClosures c).2.1
    freeClosures := (Slots.fill m.closures m.freeClosures c).2.2 }

theorem define_eq (m : Machine α) (c : Closure α) :
    m.define c = (m.nextClosure c, m.defined c) := by
  obtain ⟨arena, closures, free, output, depth, calls⟩ := m
  cases free <;> rfl

/-- The scopes that a collection empties. -/
def lost (m : Machine α) (held : List Value) : List ScopeId :=
  m.arena.garbage (held.filterMap m.capturedBy) m.capturedBy

/-- The machine after the first half of a collection, with the closures still to drop. -/
def sweptScopes (m : Machine α) (held : List Value) : Machine α :=
  { m with arena := (m.arena.collect (held.filterMap m.capturedBy) m.capturedBy).2 }

/-- The closures that a collection drops. -/
def dropped (m : Machine α) (held : List Value) : List Nat := (m.sweptScopes held).unnamed held

theorem dropAll_eq (ids : List Nat) (m : Machine α) : ids.foldl dropClosure m = { m with
    closures := Slots.clearAll m.closures ids
    freeClosures := ids.reverse ++ m.freeClosures } := by
  induction ids generalizing m with
  | nil => rfl
  | cons id ids ih =>
    rw [List.foldl_cons, ih]
    simp only [dropClosure, Slots.clearAll, List.foldl_cons, List.reverse_cons, List.append_assoc,
      List.singleton_append]

theorem collect_eq (m : Machine α) (held : List Value) : m.collect held = { m.sweptScopes held with
    closures := Slots.clearAll m.closures (m.dropped held)
    freeClosures := (m.dropped held).reverse ++ m.freeClosures } :=
  dropAll_eq (m.dropped held) (m.sweptScopes held)

theorem scope?_collect (m : Machine α) (held : List Value) (j : ScopeId) :
    (m.collect held).arena.scope? j = if j ∈ m.lost held then none else m.arena.scope? j := by
  rw [collect_eq]
  exact Arena.scope?_collect

theorem closure?_collect (m : Machine α) (held : List Value) (id : Nat) :
    (m.collect held).closure? id = if id ∈ m.dropped held then none else m.closure? id := by
  rw [collect_eq]
  exact Slots.at?_clearAll (m.dropped held)

/-- A collection drops the closures that no value names which is held, or bound in a scope that
    stays. -/
theorem mem_dropped {id : Nat} : id ∈ m.dropped held ↔ (m.closure? id).isSome ∧
    ∀ v ∈ held ++ (m.sweptScopes held).arena.values, v.closure? ≠ some id := by
  unfold dropped unnamed
  have hnamed : ((held ++ (m.sweptScopes held).arena.values).filterMap Value.closure?).contains id
      = true ↔ ∃ v ∈ held ++ (m.sweptScopes held).arena.values, v.closure? = some id := by
    rw [List.contains_iff_mem, List.mem_filterMap]
  rw [List.mem_filter, List.mem_range, Bool.and_eq_true, Bool.not_eq_true', Bool.eq_false_iff,
    ne_eq, hnamed]
  constructor
  · rintro ⟨-, hsome, hnot⟩
    exact ⟨hsome, fun v hv heq => hnot ⟨v, hv, heq⟩⟩
  · rintro ⟨hsome, hnot⟩
    obtain ⟨c, hc⟩ := Option.isSome_iff_exists.mp hsome
    refine ⟨Slots.lt_size hc, hsome, ?_⟩
    rintro ⟨v, hv, heq⟩
    exact hnot v hv heq

/-- The scope of a closure that a value names which is held or bound in a scope that stays. -/
theorem scope_not_lost {id : Nat} {c : Closure α} (hc : m.closure? id = some c)
    (hv : v ∈ held ++ (m.sweptScopes held).arena.values) (hid : v.closure? = some id) :
    c.scope ∉ m.lost held := by
  have hcaptured : m.capturedBy v = some c.scope := by
    rw [capturedBy, hid, Option.bind_some, hc]
    rfl
  rcases List.mem_append.mp hv with hheld | hbound
  · exact Arena.root_not_garbage (List.mem_filterMap.mpr ⟨v, hheld, hcaptured⟩)
  · obtain ⟨j, s, hs, hvs⟩ := Arena.exists_of_mem_values hbound
    have hs : (m.arena.collect _ _).2.scope? j = some s := hs
    rw [Arena.scope?_collect] at hs
    split at hs
    case isTrue => exact absurd hs (by simp)
    case isFalse hj =>
      -- bound in a scope that stays, and marking follows the values of such a scope
      refine Arena.neighbour_not_garbage hs hj (List.mem_append_right _ ?_)
      exact List.mem_filterMap.mpr ⟨v, hvs, hcaptured⟩

/-- Whatever names a closure that is kept holds its scope, which stays. -/
theorem isCaptured_collect
    (h : ∀ id c, m.closure? id = some c → m.arena.isCaptured c.scope = true)
    (held : List Value) (id : Nat) (c : Closure α) (hc : (m.collect held).closure? id = some c) :
    (m.collect held).arena.isCaptured c.scope = true := by
  rw [closure?_collect] at hc
  split at hc
  case isTrue => exact absurd hc (by simp)
  case isFalse hid =>
    -- it was not dropped, so a value that stays names it
    have hnamed : ∃ v ∈ held ++ (m.sweptScopes held).arena.values, v.closure? = some id := by
      refine Classical.byContradiction fun hnone => hid (mem_dropped.mpr ⟨?_, ?_⟩)
      · rw [hc]
        rfl
      · exact fun v hv heq => hnone ⟨v, hv, heq⟩
    obtain ⟨v, hv, heq⟩ := hnamed
    obtain ⟨s, hs, hsc⟩ := Arena.isCaptured_eq_true.mp (h id c hc)
    refine Arena.isCaptured_eq_true.mpr ⟨s, ?_, hsc⟩
    rw [scope?_collect, if_neg (scope_not_lost hc hv heq), hs]

/-- A function value names a closure in the table. -/
def Names (m : Machine α) (v : Value) : Prop :=
  ∀ id, v.closure? = some id → (m.closure? id).isSome

/-- A machine in which nothing needed was given away, while the scopes on the `stack` are active and
    the `held` values are in use. -/
structure Valid (m : Machine α) (stack : List ScopeId) (held : List Value) : Prop where
  arena : m.arena.Valid
  table : Slots.FreeList m.closures m.freeClosures
  scopes : ∀ id c, m.closure? id = some c → m.arena.isCaptured c.scope = true
  bound : ∀ i s, m.arena.scope? i = some s → ∀ v ∈ s.bindings.values, m.Names v
  held : ∀ v ∈ held, m.Names v
  active : ∀ i, i ∈ stack ↔ ∃ s, m.arena.scope? i = some s ∧ s.active = true
  nested : stack.Pairwise fun inner outer =>
    inner ≠ outer ∧ m.arena.link? outer ≠ some (some inner)

namespace Valid

theorem isSome_of_mem (h : m.Valid stack held) (hi : i ∈ stack) : (m.arena.scope? i).isSome := by
  obtain ⟨s, hs, -⟩ := (h.active i).mp hi
  rw [hs]
  rfl

/-- Fewer values may be held. -/
theorem weaken (h : m.Valid stack held) {fewer : List Value} (hsub : ∀ v ∈ fewer, v ∈ held) :
    m.Valid stack fewer :=
  ⟨h.arena, h.table, h.scopes, h.bound, fun v hv => h.held v (hsub v hv), h.active, h.nested⟩

/-- A value that is bound, or no function, may be held as well. -/
theorem hold (h : m.Valid stack held) (hv : m.Names v) : m.Valid stack (v :: held) := by
  refine ⟨h.arena, h.table, h.scopes, h.bound, fun w hw => ?_, h.active, h.nested⟩
  rcases List.mem_cons.mp hw with rfl | hw
  · exact hv
  · exact h.held w hw

/-! ## Binding and opening -/

/-- Binding a held value. -/
theorem declare (h : m.Valid stack held) (hv : v ∈ held) (i : ScopeId) (x : String) :
    (m.declare i x v).Valid stack held := by
  -- the scope gets one name, and nothing else changes
  have hscope : ∀ j, (m.declare i x v).arena.scope? j = if j = i
      then (m.arena.scope? j).map fun s => { s with bindings := s.bindings.put x v }
      else m.arena.scope? j := fun j => Arena.scope?_update _
  have hlink : ∀ j, (m.declare i x v).arena.link? j = m.arena.link? j :=
    fun j => Arena.link?_update fun _ => rfl
  refine ⟨h.arena.update (fun _ => rfl) (fun _ => rfl) fun _ => rfl, h.table, ?_, ?_, h.held, ?_,
    ?_⟩
  · intro id c hc
    have hsame : (m.declare i x v).arena.isCaptured c.scope = m.arena.isCaptured c.scope :=
      Arena.isCaptured_update fun _ => rfl
    rw [hsame]
    exact h.scopes id c hc
  · intro j t ht w hw
    rw [hscope] at ht
    split at ht
    · obtain ⟨s, hs, rfl⟩ := Option.map_eq_some_iff.mp ht
      rcases Bindings.mem_values_put hw with rfl | hw
      · exact h.held w hv
      · exact h.bound j s hs w hw
    · exact h.bound j t ht w hw
  · intro j
    rw [h.active, hscope]
    split
    · cases m.arena.scope? j with
      | none => simp
      | some s => simp
    · rfl
  · simp only [hlink]
    exact h.nested

theorem opening (h : m.Valid stack held) (hp : (m.arena.scope? p).isSome) :
    (m.opening p).Valid (m.arena.nextSlot p :: stack) held := by
  obtain ⟨hempty, hscope⟩ := h.arena.toRooted.scope?_pushed p
  have hne : ∀ j, (m.arena.scope? j).isSome → j ≠ m.arena.nextSlot p := by
    rintro j hj rfl
    rw [hempty] at hj
    exact absurd hj (by simp)
  refine ⟨h.arena.pushed hp, h.table, ?_, ?_, h.held, ?_, ?_⟩
  · intro id c hc
    exact h.arena.isCaptured_pushed (h.scopes id c hc) p
  · intro j t ht w hw
    have ht : (m.arena.pushed p).scope? j = some t := ht
    rw [hscope] at ht
    split at ht
    · cases ht
      exact absurd hw List.not_mem_nil
    · exact h.bound j t ht w hw
  · intro j
    show j ∈ _ ↔ ∃ s, (m.arena.pushed p).scope? j = some s ∧ s.active = true
    rw [hscope, List.mem_cons]
    by_cases hj : j = m.arena.nextSlot p
    · rw [if_pos hj]
      exact ⟨fun _ => ⟨_, rfl, rfl⟩, fun _ => .inl hj⟩
    · rw [if_neg hj, ← h.active]
      exact ⟨fun hmem => hmem.resolve_left hj, .inr⟩
  · have hlink : ∀ j ∈ stack, (m.arena.pushed p).link? j = m.arena.link? j := by
      intro j hj
      rw [Arena.link?, Arena.link?, hscope, if_neg (hne j (h.isSome_of_mem hj))]
    refine List.pairwise_cons.mpr ⟨fun j hj => ?_, ?_⟩
    · -- the slot was empty, and links lead to slots in use
      refine ⟨Ne.symm (hne j (h.isSome_of_mem hj)), fun hparent => ?_⟩
      have hparent : (m.arena.pushed p).link? j = _ := hparent
      rw [hlink j hj] at hparent
      obtain ⟨s, hs, hsp⟩ := Option.map_eq_some_iff.mp hparent
      exact hne _ (h.arena.toRooted.parent_isSome hs hsp) rfl
    · refine h.nested.imp_of_mem fun {inner outer} _ houter hpair => ⟨hpair.1, ?_⟩
      show (m.arena.pushed p).link? outer ≠ _
      rw [hlink outer houter]
      exact hpair.2

/-! ## Defining functions -/

/-- **A new closure**: its number was free, and all others stay as they were. -/
theorem closure?_defined (h : m.Valid stack held) (c : Closure α) :
    m.closure? (m.nextClosure c) = none ∧
      ∀ id, (m.defined c).closure? id = if id = m.nextClosure c then some c else m.closure? id :=
  ⟨(h.table.fill c).1, (h.table.fill c).2.1⟩

theorem names_defined (h : m.Valid stack held) (c : Closure α) (hv : m.Names v) :
    (m.defined c).Names v := by
  intro id hid
  rw [(h.closure?_defined c).2]
  split
  · rfl
  · exact hv id hid

theorem defined (h : m.Valid stack held) {c : Closure α} (hc : (m.arena.scope? c.scope).isSome)
    (f : String) : (m.defined c).Valid stack (.function (m.nextClosure c) f :: held) := by
  obtain ⟨hempty, hclosure⟩ := h.closure?_defined c
  -- defining a function marks scopes as captured, and changes no link
  have hmarks : ∀ j, ∃ f : Bool → Bool, (m.defined c).arena.scope? j =
      (m.arena.scope? j).map fun s => { s with captured := f s.captured } :=
    m.arena.scope?_capture_map c.scope
  have hlink : ∀ j, (m.defined c).arena.link? j = m.arena.link? j := by
    intro j
    obtain ⟨f, hf⟩ := hmarks j
    rw [Arena.link?, Arena.link?, hf, Option.map_map]
    rfl
  refine ⟨h.arena.capture hc, (h.table.fill c).2.2, ?_, ?_, ?_, ?_, ?_⟩
  · -- the new closure stands in a scope that was marked
    intro id d hd
    rw [hclosure] at hd
    split at hd
    · cases hd
      exact h.arena.isCaptured_capture_self hc
    · -- the older ones stand in scopes that stay marked
      exact Arena.isCaptured_capture (h.scopes id d hd) c.scope
  · intro j t ht w hw
    obtain ⟨f, hf⟩ := hmarks j
    rw [hf] at ht
    obtain ⟨s, hs, rfl⟩ := Option.map_eq_some_iff.mp ht
    exact h.names_defined c (h.bound j s hs w hw)
  · -- what is held: the new function, and what was held before
    intro w hw
    rcases List.mem_cons.mp hw with rfl | hw
    · intro id hid
      rw [hclosure, if_pos (Option.some.inj hid).symm]
      rfl
    · exact h.names_defined c (h.held w hw)
  · intro j
    obtain ⟨f, hf⟩ := hmarks j
    rw [h.active, hf]
    constructor
    · rintro ⟨s, hs, ha⟩
      exact ⟨_, Option.map_eq_some_iff.mpr ⟨s, hs, rfl⟩, ha⟩
    · rintro ⟨t, ht, ha⟩
      obtain ⟨s, hs, rfl⟩ := Option.map_eq_some_iff.mp ht
      exact ⟨s, hs, ha⟩
  · simp only [hlink]
    exact h.nested

/-! ## Ending a scope -/

/-- Another arena with the same bindings, in which fewer scopes are active. -/
theorem of_arena (h : m.Valid stack held) {b : Arena} {fewer : List ScopeId} (hb : b.Valid)
    (hbindings : ∀ j t, b.scope? j = some t →
      ∃ s, m.arena.scope? j = some s ∧ t.bindings = s.bindings)
    (hcaptured : ∀ id c, m.closure? id = some c → b.isCaptured c.scope = true)
    (hactive : ∀ j, j ∈ fewer ↔ ∃ s, b.scope? j = some s ∧ s.active = true)
    (hsub : fewer.Sublist stack) (hlinks : ∀ j ∈ fewer, b.link? j = m.arena.link? j) :
    Valid { m with arena := b } fewer held := by
  refine ⟨hb, h.table, hcaptured, ?_, h.held, hactive, ?_⟩
  · intro j t ht w hw
    obtain ⟨s, hs, heq⟩ := hbindings j t ht
    exact h.bound j s hs w (heq ▸ hw)
  · refine (h.nested.sublist hsub).imp_of_mem fun {inner outer} _ houter hpair => ⟨hpair.1, ?_⟩
    show b.link? outer ≠ some (some inner)
    rw [hlinks outer houter]
    exact hpair.2

/-- A captured scope is only marked as ended, and waits for a collection. -/
theorem retire (h : m.Valid (i :: stack) held) (hi : i ≠ Arena.global)
    (hc : m.arena.isCaptured i = true) :
    Valid { m with arena := m.arena.release i } stack held := by
  obtain ⟨hinner, -⟩ := List.pairwise_cons.mp h.nested
  -- the scope keeps its slot, and is only marked
  have hrelease : m.arena.release i = { m.arena.update i fun s => { s with active := false } with
      retained := m.arena.retained + 1 } := by
    rw [Arena.release, if_neg hi, if_pos hc]
  have hscope : ∀ j, (m.arena.release i).scope? j = if j = i
      then (m.arena.scope? j).map fun s => { s with active := false }
      else m.arena.scope? j := by
    intro j
    rw [hrelease]
    exact Arena.scope?_update _
  refine h.of_arena ?_ ?_ ?_ ?_ (List.sublist_cons_self i stack) ?_
  · rw [hrelease]
    exact (h.arena.retired hi hc).of_slots rfl rfl
  · intro j t ht
    rw [hscope] at ht
    split at ht
    · obtain ⟨s, hs, rfl⟩ := Option.map_eq_some_iff.mp ht
      exact ⟨s, hs, rfl⟩
    · exact ⟨t, ht, rfl⟩
  · exact fun id c hclosure => Arena.isCaptured_release (h.scopes id c hclosure) i
  · intro j
    rw [hscope]
    by_cases hj : j = i
    · -- the scope itself is neither active nor on the stack any more
      rw [if_pos hj]
      refine ⟨fun hmem => absurd hj.symm (hinner j hmem).1, ?_⟩
      rintro ⟨t, ht, ha⟩
      obtain ⟨s, -, rfl⟩ := Option.map_eq_some_iff.mp ht
      exact absurd ha (by simp)
    · -- every other scope is as active as before
      rw [if_neg hj, ← h.active, List.mem_cons]
      exact ⟨.inr, fun hmem => hmem.resolve_left hj⟩
  · intro j _
    rw [hrelease]
    exact Arena.link?_update fun _ => rfl

/-- No scope lies inside the innermost one, unless that is captured. -/
theorem nothing_inside (h : m.Valid (i :: stack) held) (hc : ¬m.arena.isCaptured i = true)
    {j : ScopeId} (hj : j ≠ i) : m.arena.link? j ≠ some (some i) := by
  intro hlink
  obtain ⟨s, hs, hparent⟩ := Option.map_eq_some_iff.mp hlink
  by_cases hsc : s.captured = true
  · exact hc (h.arena.outer j s i hs hsc hparent)
  · -- not captured, so still active, so on the stack below `i` and opened before it
    have hactive : s.active = true := by
      refine Classical.byContradiction fun hnot => hsc ?_
      exact h.arena.released j s hs (Bool.eq_false_iff.mpr hnot)
    have hmem := (h.active j).mpr ⟨s, hs, hactive⟩
    have hbelow := (List.pairwise_cons.mp h.nested).1 j ((List.mem_cons.mp hmem).resolve_left hj)
    exact hbelow.2 hlink

/-- The slot of a scope that is not captured is emptied at once. -/
theorem vacate (h : m.Valid (i :: stack) held) (hi : i ≠ Arena.global)
    (hc : ¬m.arena.isCaptured i = true) :
    Valid { m with arena := m.arena.release i } stack held := by
  obtain ⟨hinner, -⟩ := List.pairwise_cons.mp h.nested
  have hrelease : m.arena.release i = m.arena.sweep [i] := by
    rw [Arena.release, if_neg hi, if_neg hc]
    rfl
  have hscope : ∀ j, (m.arena.release i).scope? j = if j = i then none else m.arena.scope? j := by
    intro j
    rw [hrelease, Arena.scope?_sweep]
    simp only [List.mem_singleton]
  refine h.of_arena ?_ ?_ ?_ ?_ (List.sublist_cons_self i stack) ?_
  · rw [hrelease]
    refine h.arena.swept (List.nodup_cons.mpr ⟨List.not_mem_nil, List.nodup_nil⟩) ?_ ?_ ?_
    · intro j hj
      rw [List.mem_singleton.mp hj]
      exact h.isSome_of_mem (List.mem_cons_self ..)
    · exact fun hmem => hi (List.mem_singleton.mp hmem).symm
    · intro j p hlink hj hp
      rw [List.mem_singleton] at hj hp
      exact h.nothing_inside hc hj (hp ▸ hlink)
  · intro j t ht
    rw [hscope] at ht
    split at ht
    · exact absurd ht (by simp)
    · exact ⟨t, ht, rfl⟩
  · -- the scope of a closure is captured, so it is not the one emptied
    exact fun id c hclosure => Arena.isCaptured_release (h.scopes id c hclosure) i
  · intro j
    rw [hscope]
    by_cases hj : j = i
    · rw [if_pos hj]
      exact ⟨fun hmem => absurd hj.symm (hinner j hmem).1, fun ⟨t, ht, _⟩ => absurd ht (by simp)⟩
    · rw [if_neg hj, ← h.active, List.mem_cons]
      exact ⟨.inr, fun hmem => hmem.resolve_left hj⟩
  · intro j hj
    rw [Arena.link?, Arena.link?, hscope, if_neg (Ne.symm (hinner j hj).1)]

/-- **Releasing the innermost scope.** -/
theorem release (h : m.Valid (i :: stack) held) (hi : i ≠ Arena.global) :
    Valid { m with arena := m.arena.release i } stack held := by
  by_cases hc : m.arena.isCaptured i = true
  · exact h.retire hi hc
  · exact h.vacate hi hc

/-! ## Collecting -/

/-- A value that is held or bound in a scope that stays still names its closure. -/
theorem names_collect (hv : v ∈ held ++ (m.sweptScopes held).arena.values) (h : m.Names v) :
    (m.collect held).Names v := by
  intro id hid
  have hkept : id ∉ m.dropped held := fun hmem => (mem_dropped.mp hmem).2 v hv hid
  rw [closure?_collect, if_neg hkept]
  exact h id hid

/-- **A collection takes nothing that is needed.** -/
theorem collect (h : m.Valid stack held) : (m.collect held).Valid stack held := by
  -- what is on the stack is active, so it is kept
  have hkept : ∀ j ∈ stack, (m.collect held).arena.scope? j = m.arena.scope? j := by
    intro j hj
    obtain ⟨s, hs, ha⟩ := (h.active j).mp hj
    have hnot : j ∉ m.lost held := Arena.active_not_garbage hs ha
    rw [scope?_collect, if_neg hnot]
  -- what is kept is as it was
  have hbefore : ∀ j s, (m.collect held).arena.scope? j = some s → m.arena.scope? j = some s := by
    intro j s hs
    rw [scope?_collect] at hs
    split at hs
    · exact absurd hs (by simp)
    · exact hs
  refine ⟨?_, ?_, ?_, ?_, ?_, ?_, ?_⟩
  · rw [collect_eq]
    exact h.arena.collect _ _
  · rw [collect_eq]
    refine h.table.clearAll (List.nodup_range.sublist List.filter_sublist) fun id hid => ?_
    exact (mem_dropped.mp hid).1
  · -- closures that are kept have scopes that are kept
    exact isCaptured_collect h.scopes held
  · intro j s hs v hv
    refine names_collect (List.mem_append_right _ ?_) (h.bound j s (hbefore j s hs) v hv)
    rw [collect_eq] at hs
    exact Arena.mem_values hs hv
  · -- what is held is a root of the collection
    intro v hv
    exact names_collect (List.mem_append_left _ hv) (h.held v hv)
  · intro j
    rw [h.active]
    constructor
    · rintro ⟨s, hs, ha⟩
      exact ⟨s, (hkept j ((h.active j).mpr ⟨s, hs, ha⟩)).trans hs, ha⟩
    · rintro ⟨s, hs, ha⟩
      exact ⟨s, hbefore j s hs, ha⟩
  · refine h.nested.imp_of_mem fun {inner outer} _ houter hpair => ⟨hpair.1, ?_⟩
    rw [Arena.link?, hkept outer houter]
    exact hpair.2

/-- **Ending the innermost scope**, with or without a collection. -/
theorem endScope (h : m.Valid (i :: stack) held) (hi : i ≠ Arena.global) (limits : Limits) :
    (m.endScope ⟨limits, true⟩ held i).Valid stack held := by
  have hrelease := h.release hi
  unfold Machine.endScope
  rw [if_pos rfl]
  dsimp only
  split
  · exact hrelease.collect
  · exact hrelease

end Valid

end Machine

end Scriptlet
