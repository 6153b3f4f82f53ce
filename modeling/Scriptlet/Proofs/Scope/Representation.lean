/-
  The representation of an arena, whatever is done to it.

  1. **Operations** (`Arena.Operation`) — opening, releasing, capturing, declaring, assigning and
     collecting, each with the condition under which it may be asked for.  A scope is released while
     it is active and no active scope lies directly inside it; a collection may be given any roots
     and any links from values to scopes.
  2. **Step** (`Arena.Valid.apply`) — every operation keeps an arena valid.  The crux is `release`:
     a scope that is not captured is emptied at once, and nothing can lie inside it, as a scope
     inside would be active, or captured and then so would be the one around it.
  3. **Run** (`Arena.Reachable.representation`) — by induction on the operations, every arena that
     can come about has its free list, its links and its marks in order.
-/
import Scriptlet.Proofs.Scope.Marking

namespace Scriptlet.Arena

variable {a : Arena} {i j p : ScopeId} {s : Scope} {l : List ScopeId}

/-! ## Operations -/

/-- What may be done to an arena. -/
inductive Operation where
  | push (parent : ScopeId)
  | release (id : ScopeId)
  | capture (id : ScopeId)
  | declare (id : ScopeId) (name : String) (value : Value)
  | assign (id : ScopeId) (name : String) (value : Value)
  | collect (roots : List ScopeId) (capturedBy : Value → Option ScopeId)

namespace Operation

/-- The arena after an operation. -/
def apply : Operation → Arena → Arena
  | push parent, a => (a.push parent).2
  | release id, a => a.release id
  | capture id, a => a.capture id
  | declare id name value, a => a.declare id name value
  | assign id name value, a => a.assign id name value
  | collect roots capturedBy, a => (a.collect roots capturedBy).2

/-- When an operation may be asked for. -/
def Allowed (a : Arena) : Operation → Prop
  | push parent => (a.scope? parent).isSome
  | release id => (∃ s, a.scope? id = some s ∧ s.active = true) ∧
      ∀ j t, a.scope? j = some t → t.active = true → t.parent ≠ some id
  | capture id | declare id _ _ | assign id _ _ => (a.scope? id).isSome
  | collect _ _ => True

end Operation

/-- Whether an active scope lies inside another can be checked slot by slot. -/
theorem Operation.allowed_release (hi : ∃ s, a.scope? i = some s ∧ s.active = true)
    (h : ∀ j < a.slots.size, (a.scope? j).all (fun t => !t.active || t.parent != some i) = true) :
    (release i).Allowed a := by
  refine ⟨hi, fun j t ht ha hparent => ?_⟩
  have hj := h j (Slots.lt_size ht)
  rw [ht, Option.all_some, ha, hparent] at hj
  simp at hj

/-- The arenas that operations make of the empty one. -/
inductive Reachable : Arena → Prop
  | empty : Reachable Arena.empty
  | step {a : Arena} (op : Operation) (before : Reachable a) (allowed : op.Allowed a) :
      Reachable (op.apply a)

/-! ## What one operation keeps -/

/-- **Releasing** an active scope that no active scope lies inside. -/
theorem Valid.release (h : a.Valid) (hi : (a.scope? i).isSome)
    (hinside : ∀ j t, a.scope? j = some t → t.active = true → t.parent ≠ some i) :
    (a.release i).Valid := by
  unfold Arena.release
  split
  case isTrue => exact h
  case isFalse hglobal =>
    split
    case isTrue hc => exact (h.retired hglobal hc).of_slots rfl rfl
    case isFalse hc =>
      show (a.sweep [i]).Valid
      refine h.swept (List.nodup_cons.mpr ⟨List.not_mem_nil, List.nodup_nil⟩) ?_ ?_ ?_
      · intro j hj
        rw [List.mem_singleton.mp hj]
        exact hi
      · exact fun hmem => hglobal (List.mem_singleton.mp hmem).symm
      · intro j q hlink hj hq
        rw [List.mem_singleton] at hj hq
        subst hq
        obtain ⟨t, ht, hparent⟩ := Option.map_eq_some_iff.mp hlink
        -- a scope inside is captured, and then so is `q`, or it is still active
        by_cases htc : t.captured = true
        · exact hc (h.outer j t q ht htc hparent)
        · have hactive : t.active = true :=
            Bool.of_not_eq_false fun hf => htc (h.released j t ht hf)
          exact hinside j t ht hactive hparent

/-- **Every operation keeps an arena valid.** -/
theorem Valid.apply (h : a.Valid) {op : Operation} (allowed : op.Allowed a) :
    (op.apply a).Valid := by
  cases op with
  | push parent =>
    show (a.push parent).2.Valid
    rw [push_eq]
    exact h.pushed allowed
  | release id =>
    obtain ⟨⟨s, hs, -⟩, hinside⟩ := allowed
    exact h.release (by rw [hs]; rfl) hinside
  | capture id => exact h.capture allowed
  | declare id name value => exact h.update (fun _ => rfl) (fun _ => rfl) fun _ => rfl
  | assign id name value => exact h.update (fun _ => rfl) (fun _ => rfl) fun _ => rfl
  | collect roots capturedBy => exact h.collect roots capturedBy

theorem Reachable.valid (h : Reachable a) : a.Valid := by
  induction h with
  | empty => exact valid_empty
  | step op _ allowed ih => exact ih.apply allowed

/-! ## What a valid arena looks like -/

/-- Around a captured scope all scopes are captured. -/
theorem Valid.isCaptured_path (h : a.Valid) (hpath : Path a i l) (hi : a.isCaptured i = true)
    (hj : j ∈ l) : a.isCaptured j = true := by
  induction hpath with
  | outermost =>
    rw [List.mem_singleton.mp hj]
    exact hi
  | @inner i q l hlink _ _ ih =>
    rcases List.mem_cons.mp hj with rfl | hj
    · exact hi
    · obtain ⟨s, hs, hc⟩ := isCaptured_eq_true.mp hi
      have hparent : s.parent = some q := by
        rw [link?, hs] at hlink
        exact Option.some.inj hlink
      exact ih (h.outer i s q hs hc hparent) hj

/-- **Capture marks all scopes outward**, though it stops at the first that is marked. -/
theorem Valid.isCaptured_capture_chain (h : a.Valid) (hi : (a.scope? i).isSome)
    (hj : j ∈ a.chain i) : (a.capture i).isCaptured j = true := by
  have hpath : Path (a.capture i) i (a.chain i) :=
    (h.toRooted.path_chain hi).congr fun k _ => link?_capture a i k
  exact (h.capture hi).isCaptured_path hpath (h.isCaptured_capture_self hi) hj

/-- A scope other than the global one has a scope around it. -/
theorem Valid.parent_of_ne_global (h : a.Valid) (hs : a.scope? i = some s) (hi : i ≠ global) :
    ∃ p, s.parent = some p ∧ (a.scope? p).isSome := by
  obtain ⟨l, hl⟩ := h.path i (by rw [hs]; rfl)
  cases hl with
  | outermost => exact absurd rfl hi
  | @inner _ q _ hlink _ outer =>
    rw [link?, hs] at hlink
    exact ⟨q, Option.some.inj hlink, outer.isSome outer.mem_self⟩

/-- How the scopes of an arena are kept. -/
structure Representation (a : Arena) : Prop where
  /-- The free list has no duplicates. -/
  nodup : a.free.Nodup
  /-- The free list names exactly the empty slots. -/
  free : ∀ i, i ∈ a.free ↔ i < a.slots.size ∧ a.scope? i = none
  /-- The number of slots in use is right. -/
  live : a.live = (List.range a.slots.size).countP fun i => (a.scope? i).isSome
  /-- Around every scope but the global one there is a scope. -/
  parent : ∀ i s, a.scope? i = some s → i ≠ global →
    ∃ p, s.parent = some p ∧ (a.scope? p).isSome
  /-- The scopes outward from any scope end with the global one, and none of them comes twice. -/
  path : ∀ i, (a.scope? i).isSome → Path a i (a.chain i)
  /-- Walking outward ends by itself: with more steps allowed it goes no further. -/
  ends : ∀ i, (a.scope? i).isSome → ∀ n, a.slots.size ≤ n → a.outward n i = a.chain i
  /-- What is around a captured scope is captured. -/
  outer : ∀ i s p, a.scope? i = some s → s.captured = true → s.parent = some p →
    a.isCaptured p = true
  /-- Capturing a scope marks all scopes outward. -/
  captures : ∀ i, (a.scope? i).isSome → ∀ j ∈ a.chain i, (a.capture i).isCaptured j = true
  /-- A scope that is not active is captured. -/
  released : ∀ i s, a.scope? i = some s → s.active = false → s.captured = true
  /-- The global scope is there, and active. -/
  globalActive : ∃ s, a.scope? global = some s ∧ s.active = true
  /-- A new scope takes the slot of no other, and binds nothing. -/
  fresh : ∀ p, a.scope? (a.push p).1 = none ∧
    (a.push p).2.scope? (a.push p).1 = some ⟨[], some p, true, false⟩

theorem Valid.toRepresentation (h : a.Valid) : Representation a where
  nodup := h.free.nodup
  free := h.free.mem_iff
  live := by
    -- what is not free is in use
    have hcount := h.free.length_add_count
    show a.slots.size - a.free.length = (List.range a.slots.size).countP _
    have hlive : (List.range a.slots.size).countP (fun i => (a.scope? i).isSome)
        = (List.range a.slots.size).countP fun i => (Slots.at? a.slots i).isSome := rfl
    omega
  parent := fun i s hs hi => h.parent_of_ne_global hs hi
  path := fun i hi => h.toRooted.path_chain hi
  ends := by
    -- a path is no longer than there are slots, so every walk outward ends
    intro i hi n hn
    have hpath := h.toRooted.path_chain hi
    have hlength : (a.chain i).length ≤ a.slots.size := hpath.length_le
    exact hpath.outward_eq n (by omega)
  outer := h.outer
  captures := fun i hi j hj => h.isCaptured_capture_chain hi hj
  released := h.released
  globalActive := h.globalActive
  fresh := by
    -- a slot that is taken was empty
    intro p
    obtain ⟨hempty, hscope⟩ := h.toRooted.scope?_pushed p
    rw [push_eq]
    exact ⟨hempty, (hscope _).trans (if_pos rfl)⟩

/-- The clauses are all that the operations rely on. -/
theorem Representation.valid (h : Representation a) : a.Valid where
  free := ⟨h.nodup, h.free⟩
  path := fun i hi => ⟨a.chain i, h.path i hi⟩
  outer := h.outer
  released := h.released
  globalActive := h.globalActive

/-- **Whatever was done to it**, an arena has its free list, its links and its marks in order. -/
theorem Reachable.representation (h : Reachable a) : Representation a := h.valid.toRepresentation

/-- Two scopes are opened, the first is released, and its slot goes to a scope inside the second. -/
def crossed : Arena :=
  [Operation.push 0, .push 0, .capture 2, .release 1, .push 2].foldl (fun a op => op.apply a) empty

/-- Numbers do not tell which scope is around which: here the one around slot 1 is in slot 2. -/
theorem representation_crossed :
    crossed.parent? 1 = some 2 ∧ crossed.chain 1 = [1, 2, 0] ∧ Representation crossed := by
  have opened := Reachable.step (.push 0) (.step (.push 0) .empty rfl) rfl
  have captured := opened.step (.capture 2) rfl
  have released := captured.step (.release 1) ⟨⟨_, rfl, rfl⟩, fun j t ht _ => by
    -- the scopes are the global one and the two inside it
    match j with
    | 0 | 1 | 2 => cases ht; simp
    | j + 3 =>
      have hlt : j + 3 < 3 := Slots.lt_size ht
      exact absurd hlt (Nat.not_lt.mpr (Nat.le_add_left 3 j))⟩
  exact ⟨rfl, rfl, (released.step (.push 2) rfl).representation⟩

end Scriptlet.Arena
