/-
  Marking: a collection keeps every scope that can still be reached.

  1. **The worklist** (`mark_closed`) — a link from a marked scope leads to a marked or a pending
     one; when nothing is pending, the marks are closed under links.
  2. **Garbage** — the scopes a collection empties are neither active nor the target of a link from
     a scope that stays, nor a root.  So sweeping them keeps the arena valid.
-/
import Scriptlet.Scope.Collect
import Scriptlet.Proofs.Scope.Lifetime

namespace Scriptlet.Arena

variable {a : Arena} {capturedBy : Value → Option ScopeId} {i j : ScopeId} {s : Scope}

/-- Whether a slot is marked. -/
def Marked (marked : Array Bool) (i : ScopeId) : Prop := marked[i]? = some true

/-- One more slot is marked. -/
theorem marked_set {marked : Array Bool} {i : ScopeId} (hi : i < marked.size) :
    Marked (marked.set i true hi) j ↔ j = i ∨ Marked marked j := by
  unfold Marked
  rw [Array.getElem?_set hi]
  by_cases hji : i = j
  · rw [if_pos hji]
    exact ⟨fun _ => .inl hji.symm, fun _ => rfl⟩
  · rw [if_neg hji]
    exact ⟨.inr, fun h => h.resolve_left (Ne.symm hji)⟩

/-- The marks are closed under links, but for links to pending scopes. -/
def Closed (a : Arena) (capturedBy : Value → Option ScopeId) (pending : List ScopeId)
    (marked : Array Bool) : Prop :=
  ∀ i s, a.scope? i = some s → Marked marked i → ∀ n ∈ neighbours capturedBy s,
    (a.scope? n).isSome → Marked marked n ∨ n ∈ pending

/-- **The worklist**: the marks that come out include those that went in and the pending scopes, and
    they are closed under links. -/
theorem mark_closed (a : Arena) (capturedBy : Value → Option ScopeId) (pending : List ScopeId)
    (marked : Array Bool) (hsize : marked.size = a.slots.size)
    (hclosed : Closed a capturedBy pending marked) :
    (∀ j, Marked marked j → Marked (a.mark capturedBy pending marked) j) ∧
      (∀ j ∈ pending, (a.scope? j).isSome → Marked (a.mark capturedBy pending marked) j) ∧
      Closed a capturedBy [] (a.mark capturedBy pending marked) := by
  fun_induction mark a capturedBy pending marked with
  | case1 marked => exact ⟨fun _ h => h, fun j hj => absurd hj List.not_mem_nil, hclosed⟩
  | case2 marked id pending hnone ih =>
    -- an empty slot is passed over: nothing links to it
    have hrest : Closed a capturedBy pending marked := by
      intro i s hs hi n hn hsome
      rcases hclosed i s hs hi n hn hsome with h | h
      · exact .inl h
      · rcases List.mem_cons.mp h with rfl | h
        · rw [hnone] at hsome
          exact absurd hsome (by simp)
        · exact .inr h
    obtain ⟨hkeep, hpending, hdone⟩ := ih hsize hrest
    refine ⟨hkeep, fun j hj hsome => ?_, hdone⟩
    rcases List.mem_cons.mp hj with rfl | hj
    · rw [hnone] at hsome
      exact absurd hsome (by simp)
    · exact hpending j hj hsome
  | case3 marked id pending s hs h ih =>
    -- a new mark: whatever the scope links to becomes pending
    have hrest : Closed a capturedBy (neighbours capturedBy s ++ pending)
        (marked.set id true h.1) := by
      intro i t ht hi n hn hsome
      rw [marked_set] at hi ⊢
      rcases hi with rfl | hi
      · rw [hs] at ht
        cases ht
        exact .inr (List.mem_append_left _ hn)
      · rcases hclosed i t ht hi n hn hsome with h | h
        · exact .inl (.inr h)
        · rcases List.mem_cons.mp h with rfl | h
          · exact .inl (.inl rfl)
          · exact .inr (List.mem_append_right _ h)
    obtain ⟨hkeep, hpending, hdone⟩ := ih (by rw [Array.size_set]; exact hsize) hrest
    refine ⟨fun j hj => hkeep j ((marked_set h.1).mpr (.inr hj)), fun j hj hsome => ?_, hdone⟩
    rcases List.mem_cons.mp hj with rfl | hj
    · exact hkeep j ((marked_set h.1).mpr (.inl rfl))
    · exact hpending j (List.mem_append_right _ hj) hsome
  | case4 marked id pending s hs h ih =>
    -- marked before, so it may leave the list
    have hid : Marked marked id := by
      have hlt : id < marked.size := by
        rw [hsize]
        exact Slots.lt_size hs
      have hnot : ¬marked[id] = false := fun hf => h ⟨hlt, hf⟩
      rw [Marked, Array.getElem?_eq_getElem hlt]
      exact congrArg some (eq_true_of_ne_false hnot)
    have hrest : Closed a capturedBy pending marked := by
      intro i t ht hi n hn hsome
      rcases hclosed i t ht hi n hn hsome with h | h
      · exact .inl h
      · rcases List.mem_cons.mp h with rfl | h
        · exact .inl hid
        · exact .inr h
    obtain ⟨hkeep, hpending, hdone⟩ := ih hsize hrest
    refine ⟨hkeep, fun j hj hsome => ?_, hdone⟩
    rcases List.mem_cons.mp hj with rfl | hj
    · exact hkeep j hid
    · exact hpending j hj hsome

/-! ## What is reached -/

variable {roots : List ScopeId}

/-- **What is reached**: it holds the roots and the active scopes, and it is closed. -/
theorem reached_spec (a : Arena) (roots : List ScopeId) (capturedBy : Value → Option ScopeId) :
    (∀ j ∈ roots ++ a.activeScopes, (a.scope? j).isSome →
        Marked (a.reached roots capturedBy) j) ∧
      Closed a capturedBy [] (a.reached roots capturedBy) := by
  have hnone : ∀ i, ¬Marked (Array.replicate a.slots.size false) i := by
    intro i hi
    rw [Marked, Array.getElem?_replicate] at hi
    split at hi
    · exact absurd hi (by simp)
    · exact absurd hi (by simp)
  have hclosed : Closed a capturedBy (roots ++ a.activeScopes)
      (Array.replicate a.slots.size false) := fun i _ _ hi => absurd hi (hnone i)
  exact (mark_closed a capturedBy _ _ Array.size_replicate hclosed).2

/-- A scope that is active is listed as such. -/
theorem mem_activeScopes (hs : a.scope? i = some s) (ha : s.active = true) :
    i ∈ a.activeScopes := by
  refine List.mem_filter.mpr ⟨List.mem_range.mpr (Slots.lt_size hs), ?_⟩
  rw [hs]
  exact ha

/-- A collection empties the scopes that are neither active nor reached. -/
theorem mem_garbage : j ∈ a.garbage roots capturedBy ↔
    ∃ s, a.scope? j = some s ∧ s.active = false ∧ ¬Marked (a.reached roots capturedBy) j := by
  -- outside of the list nothing is marked
  have hmarked : (a.reached roots capturedBy).getD j false = true
      ↔ Marked (a.reached roots capturedBy) j := by
    rw [Array.getD_eq_getD_getElem?, Marked]
    cases (a.reached roots capturedBy)[j]? with
    | none => simp
    | some b => simp
  unfold garbage
  rw [List.mem_filter, List.mem_range]
  constructor
  · rintro ⟨-, hj⟩
    split at hj
    -- an empty slot is no garbage
    case h_1 => exact absurd hj (by simp)
    -- a scope is garbage if neither the flag nor the mark keeps it
    case h_2 s hs =>
      rw [Bool.and_eq_true, Bool.not_eq_true', Bool.not_eq_true'] at hj
      refine ⟨s, hs, hj.1, fun hm => ?_⟩
      rw [hmarked.mpr hm] at hj
      exact absurd hj.2 (by simp)
  · -- a scope stands in a slot of the list
    rintro ⟨s, hs, ha, hm⟩
    refine ⟨Slots.lt_size hs, ?_⟩
    have hnot : (a.reached roots capturedBy).getD j false = false :=
      Bool.eq_false_iff.mpr fun h => hm (hmarked.mp h)
    rw [hs]
    simp only [ha, hnot, Bool.not_false, Bool.and_self]

theorem nodup_garbage : (a.garbage roots capturedBy).Nodup :=
  List.nodup_range.sublist List.filter_sublist

/-- No root is garbage. -/
theorem root_not_garbage (hj : j ∈ roots) : j ∉ a.garbage roots capturedBy := by
  intro hmem
  obtain ⟨s, hs, -, hm⟩ := mem_garbage.mp hmem
  have hsome : (a.scope? j).isSome := by rw [hs]; rfl
  exact hm ((reached_spec a roots capturedBy).1 j (List.mem_append_left _ hj) hsome)

/-- No active scope is garbage. -/
theorem active_not_garbage (hs : a.scope? i = some s) (ha : s.active = true) :
    i ∉ a.garbage roots capturedBy := by
  intro hmem
  obtain ⟨t, ht, hta, -⟩ := mem_garbage.mp hmem
  rw [hs] at ht
  cases ht
  rw [ha] at hta
  exact absurd hta (by simp)

/-- **A link from a scope that stays leads to one that stays.** -/
theorem neighbour_not_garbage (hs : a.scope? i = some s) (hi : i ∉ a.garbage roots capturedBy)
    (hj : j ∈ neighbours capturedBy s) : j ∉ a.garbage roots capturedBy := by
  intro hmem
  obtain ⟨t, ht, -, hm⟩ := mem_garbage.mp hmem
  obtain ⟨hroots, hclosed⟩ := reached_spec a roots capturedBy
  have hi : Marked (a.reached roots capturedBy) i := by
    by_cases ha : s.active = true
    · exact hroots i (List.mem_append_right _ (mem_activeScopes hs ha)) (by rw [hs]; rfl)
    · refine Classical.byContradiction fun hnot => hi ?_
      exact mem_garbage.mpr ⟨s, hs, Bool.eq_false_iff.mpr ha, hnot⟩
  rcases hclosed i s hs hi j hj (by rw [ht]; rfl) with h | h
  · exact hm h
  · exact absurd h List.not_mem_nil

/-- A scope around one that is kept is kept. -/
theorem outer_not_garbage {p : ScopeId} (hlink : a.link? j = some (some p))
    (hj : j ∉ a.garbage roots capturedBy) : p ∉ a.garbage roots capturedBy := by
  obtain ⟨s, hs, hp⟩ := Option.map_eq_some_iff.mp hlink
  refine neighbour_not_garbage hs hj (List.mem_append_left _ ?_)
  rw [hp]
  exact List.mem_singleton.mpr rfl

/-! ## Collecting -/

/-- Collecting empties the slots of the garbage, and changes no other. -/
theorem scope?_collect : (a.collect roots capturedBy).2.scope? j
    = if j ∈ a.garbage roots capturedBy then none else a.scope? j :=
  scope?_sweep (a.garbage roots capturedBy) a

/-- The path from a scope that stays. -/
theorem Path.collect {l : List ScopeId} (hpath : Path a i l)
    (hi : i ∉ a.garbage roots capturedBy) : Path (a.collect roots capturedBy).2 i l :=
  (hpath.swept (fun _ _ => outer_not_garbage) hi).congr fun _ _ => rfl

/-- **A collection keeps an arena valid.** -/
theorem Valid.collect (h : a.Valid) (roots : List ScopeId)
    (capturedBy : Value → Option ScopeId) : (a.collect roots capturedBy).2.Valid := by
  have hglobal : global ∉ a.garbage roots capturedBy := by
    obtain ⟨g, hg, hga⟩ := h.globalActive
    exact active_not_garbage hg hga
  have hused : ∀ j ∈ a.garbage roots capturedBy, (a.scope? j).isSome := by
    intro j hj
    obtain ⟨s, hs, -⟩ := mem_garbage.mp hj
    rw [hs]
    rfl
  exact (h.swept nodup_garbage hused hglobal fun _ _ => outer_not_garbage).of_slots rfl rfl

end Scriptlet.Arena
