/-
  Slots and their free lists.

  Scopes and closures both live in an array of slots with a list of the empty ones.

  1. **View** — `Slots.at?` is what a slot holds; every change to the array is one equation on it.
  2. **Free lists** (`FreeList`) — the list names each empty slot exactly once.
  3. **Operations** — filling the next free slot, and emptying one or several, keep the free list
     right and touch no other slot.
-/
import Scriptlet.Scope.Arena

namespace Scriptlet.Slots

variable {β : Type} {slots : Array (Option β)} {free : List Nat} {i j : Nat} {x : β}

/-- What a slot holds. -/
def at? (slots : Array (Option β)) (i : Nat) : Option β := (slots[i]?).join

/-- Only the slots of the array hold something. -/
theorem lt_size (h : at? slots i = some x) : i < slots.size := by
  rcases Nat.lt_or_ge i slots.size with hlt | hge
  · exact hlt
  · rw [at?, Array.getElem?_eq_none hge] at h
    exact absurd h (by simp)

/-! ## Changing slots -/

/-- A slot more at the end. -/
theorem at?_push (y : Option β) :
    at? (slots.push y) j = if j = slots.size then y else at? slots j := by
  unfold at?
  rw [Array.getElem?_push]
  split
  · rfl
  · rfl

/-- One slot is overwritten. -/
theorem at?_set (hi : i < slots.size) (y : Option β) :
    at? (slots.setIfInBounds i y) j = if j = i then y else at? slots j := by
  unfold at?
  rw [Array.getElem?_setIfInBounds]
  by_cases h : j = i
  · rw [if_pos h, if_pos h.symm, if_pos hi]
    rfl
  · rw [if_neg h, if_neg (Ne.symm h)]

/-- One slot is emptied; past the end there was nothing to empty. -/
theorem at?_clear : at? (slots.setIfInBounds i none) j = if j = i then none else at? slots j := by
  rcases Nat.lt_or_ge i slots.size with hlt | hge
  · exact at?_set hlt none
  · rw [Array.setIfInBounds_eq_of_size_le hge]
    by_cases h : j = i
    · rw [if_pos h, h, at?, Array.getElem?_eq_none hge]
      rfl
    · rw [if_neg h]

/-- One slot is changed if it holds something. -/
theorem at?_modify (f : β → β) :
    at? (slots.modify i (Option.map f)) j = if j = i then (at? slots j).map f else at? slots j := by
  unfold at?
  rw [Array.getElem?_modify]
  by_cases h : j = i
  · rw [if_pos h, if_pos h.symm]
    cases slots[j]? <;> rfl
  · rw [if_neg h, if_neg (Ne.symm h)]

/-! ## Free lists -/

/-- The list names each empty slot once, and nothing else. -/
structure FreeList (slots : Array (Option β)) (free : List Nat) : Prop where
  nodup : free.Nodup
  mem_iff : ∀ i, i ∈ free ↔ i < slots.size ∧ at? slots i = none

/-- Without slots there is nothing to list. -/
theorem freeList_empty : FreeList (#[] : Array (Option β)) [] :=
  ⟨List.nodup_nil, fun i => ⟨fun h => absurd h List.not_mem_nil,
    fun h => absurd h.1 (Nat.not_lt_zero i)⟩⟩

/-- The free slots and the slots in use are all slots. -/
theorem FreeList.length_add_count (h : FreeList slots free) :
    free.length + (List.range slots.size).countP (fun i => (at? slots i).isSome) = slots.size := by
  have hperm : free.Perm ((List.range slots.size).filter fun i => ¬(at? slots i).isSome) := by
    refine (List.perm_ext_iff_of_nodup h.nodup (List.nodup_range.sublist List.filter_sublist)).mpr
      fun i => ?_
    rw [h.mem_iff, List.mem_filter, List.mem_range]
    simp
  have hsplit := List.length_eq_countP_add_countP (l := List.range slots.size)
    (fun i => (at? slots i).isSome)
  rw [List.length_range] at hsplit
  rw [hperm.length_eq, ← List.countP_eq_length_filter]
  omega

/-- A change inside slots that are in use. -/
theorem FreeList.modify (h : FreeList slots free) (f : β → β) :
    FreeList (slots.modify i (Option.map f)) free := by
  refine ⟨h.nodup, fun j => ?_⟩
  rw [h.mem_iff, Array.size_modify, at?_modify]
  by_cases hj : j = i
  · rw [if_pos hj, Option.map_eq_none_iff]
  · rw [if_neg hj]

/-- Puts a value into the next free slot, or into a new one if none is free. -/
def fill (slots : Array (Option β)) (free : List Nat) (x : β) :
    Nat × Array (Option β) × List Nat :=
  match free with
  | i :: free => (i, slots.setIfInBounds i (some x), free)
  | [] => (slots.size, slots.push (some x), [])

/-- Filling brings in no other value, whatever the list of free slots. -/
theorem eq_or_at?_of_fill {y : β}
    (h : at? (fill slots free x).2.1 j = some y) : y = x ∨ at? slots j = some y := by
  cases free with
  -- a new slot at the end
  | nil =>
    have h : at? (slots.push (some x)) j = some y := h
    rw [at?_push] at h
    split at h
    · exact .inl (Option.some.inj h).symm
    · exact .inr h
  -- the first free slot
  | cons i free =>
    have h : at? (slots.setIfInBounds i (some x)) j = some y := h
    by_cases hi : i < slots.size
    · rw [at?_set hi] at h
      split at h
      · exact .inl (Option.some.inj h).symm
      · exact .inr h
    · rw [Array.setIfInBounds_eq_of_size_le (Nat.le_of_not_lt hi)] at h
      exact .inr h

/-- **Filling**: the slot was empty, and all others stay as they were. -/
theorem FreeList.fill (h : FreeList slots free) (x : β) :
    at? slots (fill slots free x).1 = none ∧
      (∀ j, at? (fill slots free x).2.1 j
        = if j = (fill slots free x).1 then some x else at? slots j) ∧
      FreeList (fill slots free x).2.1 (fill slots free x).2.2 := by
  cases free with
  | nil =>
    -- no slot is empty, so the only new one is the last, which is filled
    refine ⟨?_, fun j => at?_push (some x), List.nodup_nil, fun j => ?_⟩
    · show at? slots slots.size = none
      rw [at?, Array.getElem?_eq_none (Nat.le_refl _)]
      rfl
    · show j ∈ [] ↔ j < (slots.push (some x)).size ∧ at? (slots.push (some x)) j = none
      have hj := h.mem_iff j
      rw [Array.size_push, at?_push]
      constructor
      · exact fun hmem => absurd hmem List.not_mem_nil
      · rintro ⟨hlt, hnone⟩
        by_cases hsize : j = slots.size
        · rw [if_pos hsize] at hnone
          exact absurd hnone (by simp)
        · rw [if_neg hsize] at hnone
          exact hj.mpr ⟨by omega, hnone⟩
  | cons i free =>
    obtain ⟨hi, hnone⟩ := (h.mem_iff i).mp (List.mem_cons_self ..)
    obtain ⟨hnotin, hnodup⟩ := List.nodup_cons.mp h.nodup
    refine ⟨hnone, fun j => at?_set hi (some x), hnodup, fun j => ?_⟩
    show j ∈ free ↔
      j < (slots.setIfInBounds i (some x)).size ∧ at? (slots.setIfInBounds i (some x)) j = none
    have hj := h.mem_iff j
    rw [List.mem_cons] at hj
    rw [Array.size_setIfInBounds, at?_set hi]
    by_cases hji : j = i
    · rw [if_pos hji, hji]
      exact ⟨fun hmem => absurd hmem hnotin, fun hsome => absurd hsome.2 (by simp)⟩
    · rw [if_neg hji, ← hj]
      exact ⟨.inr, fun hmem => hmem.resolve_left hji⟩

/-- **Emptying** a slot puts it on the list. -/
theorem FreeList.clear (h : FreeList slots free) (hi : at? slots i = some x) :
    FreeList (slots.setIfInBounds i none) (i :: free) := by
  have hlt := lt_size hi
  have hnotin : i ∉ free := by
    intro hmem
    rw [((h.mem_iff i).mp hmem).2] at hi
    exact absurd hi (by simp)
  refine ⟨List.nodup_cons.mpr ⟨hnotin, h.nodup⟩, fun j => ?_⟩
  rw [List.mem_cons, h.mem_iff, Array.size_setIfInBounds, at?_clear]
  by_cases hji : j = i
  · rw [if_pos hji, hji]
    exact ⟨fun _ => ⟨hlt, rfl⟩, fun _ => .inl rfl⟩
  · rw [if_neg hji]
    exact ⟨fun hmem => hmem.resolve_left hji, .inr⟩

/-! ## Emptying several slots -/

/-- Empties slots one after the other. -/
def clearAll (slots : Array (Option β)) (ids : List Nat) : Array (Option β) :=
  ids.foldl (fun slots i => slots.setIfInBounds i none) slots

/-- Several slots are emptied, and no other. -/
theorem at?_clearAll (ids : List Nat) :
    at? (clearAll slots ids) j = if j ∈ ids then none else at? slots j := by
  induction ids generalizing slots with
  | nil => exact (if_neg List.not_mem_nil).symm
  | cons i ids ih =>
    show at? (clearAll (slots.setIfInBounds i none) ids) j = _
    rw [ih, at?_clear]
    by_cases hmem : j ∈ ids
    · rw [if_pos hmem, if_pos (List.mem_cons_of_mem i hmem)]
    · by_cases hji : j = i
      · rw [if_neg hmem, if_pos hji, if_pos (List.mem_cons.mpr (.inl hji))]
      · rw [if_neg hmem, if_neg hji, if_neg fun h => (List.mem_cons.mp h).elim hji hmem]

theorem size_clearAll (ids : List Nat) : (clearAll slots ids).size = slots.size := by
  induction ids generalizing slots with
  | nil => rfl
  | cons i ids ih => exact ih.trans Array.size_setIfInBounds

/-- Slots that are emptied go to the front of the list, the last one first. -/
theorem FreeList.clearAll (h : FreeList slots free) {ids : List Nat} (hnodup : ids.Nodup)
    (hids : ∀ i ∈ ids, (at? slots i).isSome) :
    FreeList (Slots.clearAll slots ids) (ids.reverse ++ free) := by
  induction ids generalizing slots free with
  | nil => exact h
  | cons i ids ih =>
    obtain ⟨hnotin, hnodup⟩ := List.nodup_cons.mp hnodup
    obtain ⟨x, hx⟩ := Option.isSome_iff_exists.mp (hids i (List.mem_cons_self ..))
    -- the other slots are in use still
    have hrest : ∀ j ∈ ids, (at? (slots.setIfInBounds i none) j).isSome := by
      intro j hj
      have hji : j ≠ i := by
        rintro rfl
        exact hnotin hj
      rw [at?_clear, if_neg hji]
      exact hids j (List.mem_cons_of_mem i hj)
    have hall := ih (h.clear hx) hnodup hrest
    rw [List.reverse_cons, List.append_assoc]
    exact hall

end Scriptlet.Slots
