/-
  The life of a scope: opened, captured, released, emptied.

  1. **Valid arenas** (`Arena.Valid`) — whatever is around a captured scope is captured too, and a
     scope that is no longer active is captured.
  2. **Capture** — `capture` may stop at the first captured scope and still marks all scopes
     outward.
  3. **Sweeping** (`Arena.Valid.swept`) — slots may be emptied together when no other scope lies
     inside one of theirs.  Releasing an uncaptured scope empties one slot, a collection several.
-/
import Scriptlet.Proofs.Scope.Links

namespace Scriptlet.Arena

variable {a : Arena} {i j p : ScopeId} {s : Scope}

/-- An arena in which capture and release have kept their promises. -/
structure Valid (a : Arena) : Prop extends Rooted a where
  outer : ∀ i s p, a.scope? i = some s → s.captured = true → s.parent = some p →
    a.isCaptured p = true
  released : ∀ i s, a.scope? i = some s → s.active = false → s.captured = true
  globalActive : ∃ s, a.scope? global = some s ∧ s.active = true

/-! ## The empty arena -/

theorem scope?_empty {i : ScopeId} {s : Scope} (h : empty.scope? i = some s) :
    i = global ∧ s = ⟨[], none, true, true⟩ := by
  match i with
  | 0 => exact ⟨rfl, (Option.some.inj h).symm⟩
  | i + 1 => exact absurd h (by simp [empty, scope?])

theorem valid_empty : empty.Valid where
  -- its only slot is in use
  free := by
    refine ⟨List.nodup_nil, fun i => ⟨fun h => absurd h List.not_mem_nil, ?_⟩⟩
    rintro ⟨hlt, hnone⟩
    obtain rfl : i = 0 := Nat.lt_one_iff.mp hlt
    exact absurd hnone (by simp [empty, Slots.at?])
  -- the global scope has none around it
  path := by
    intro i hi
    obtain ⟨s, hs⟩ := Option.isSome_iff_exists.mp hi
    obtain ⟨rfl, -⟩ := scope?_empty hs
    exact ⟨[global], .outermost rfl⟩
  outer := by
    intro i s p hs _ hp
    obtain ⟨-, rfl⟩ := scope?_empty hs
    exact absurd hp (by simp)
  released := by
    intro i s hs _
    obtain ⟨-, rfl⟩ := scope?_empty hs
    rfl
  globalActive := ⟨_, rfl, rfl⟩

/-! ## Changing and opening -/

/-- Whether a scope is captured, after a change that does not touch the flag. -/
theorem isCaptured_update {f : Scope → Scope} (hf : ∀ s, (f s).captured = s.captured) :
    (a.update i f).isCaptured j = a.isCaptured j := by
  unfold isCaptured
  rw [scope?_update]
  split
  · cases a.scope? j with
    | none => rfl
    | some s => exact hf s
  · rfl

/-- A change of bindings only. -/
theorem Valid.update (h : a.Valid) {f : Scope → Scope} (hparent : ∀ s, (f s).parent = s.parent)
    (hactive : ∀ s, (f s).active = s.active) (hcaptured : ∀ s, (f s).captured = s.captured) :
    (a.update i f).Valid := by
  -- every scope afterwards has the links and flags of a scope before
  have hbefore : ∀ j t, (a.update i f).scope? j = some t → ∃ s, a.scope? j = some s ∧
      t.parent = s.parent ∧ t.active = s.active ∧ t.captured = s.captured := by
    intro j t ht
    rw [scope?_update] at ht
    split at ht
    · obtain ⟨s, hs, rfl⟩ := Option.map_eq_some_iff.mp ht
      exact ⟨s, hs, hparent s, hactive s, hcaptured s⟩
    · exact ⟨t, ht, rfl, rfl, rfl⟩
  refine ⟨h.toRooted.update hparent, ?_, ?_, ?_⟩
  · intro j t p ht hc hp
    obtain ⟨s, hs, hsp, -, hsc⟩ := hbefore j t ht
    rw [isCaptured_update hcaptured]
    exact h.outer j s p hs (hsc ▸ hc) (hsp ▸ hp)
  · intro j t ht ha
    obtain ⟨s, hs, -, hsa, hsc⟩ := hbefore j t ht
    rw [hsc]
    exact h.released j s hs (hsa ▸ ha)
  · obtain ⟨g, hg, hga⟩ := h.globalActive
    rw [scope?_update, hg]
    split
    · exact ⟨f g, rfl, (hactive g).trans hga⟩
    · exact ⟨g, rfl, hga⟩

theorem Valid.nextSlot_ne_global (h : a.Valid) (p : ScopeId) : a.nextSlot p ≠ global := by
  intro heq
  obtain ⟨g, hg, -⟩ := h.globalActive
  have hempty := (h.toRooted.scope?_pushed p).1
  rw [heq, hg] at hempty
  exact absurd hempty (by simp)

theorem Valid.isCaptured_pushed (h : a.Valid) (hj : a.isCaptured j = true) (p : ScopeId) :
    (a.pushed p).isCaptured j = true := by
  obtain ⟨hempty, hscope⟩ := h.toRooted.scope?_pushed p
  obtain ⟨s, hs, hc⟩ := isCaptured_eq_true.mp hj
  have hne : j ≠ a.nextSlot p := by
    rintro rfl
    rw [hempty] at hs
    exact absurd hs (by simp)
  refine isCaptured_eq_true.mpr ⟨s, ?_, hc⟩
  rw [hscope, if_neg hne, hs]

theorem Valid.pushed (h : a.Valid) (hp : (a.scope? p).isSome) : (a.pushed p).Valid := by
  obtain ⟨hempty, hscope⟩ := h.toRooted.scope?_pushed p
  refine ⟨h.toRooted.pushed hp, ?_, ?_, ?_⟩
  · -- a scope that is captured was there before, and so was the one around it
    intro j s q hs hc hq
    rw [hscope] at hs
    split at hs
    · cases hs
      exact absurd hc (by simp [opened])
    · exact h.isCaptured_pushed (h.outer j s q hs hc hq) p
  · -- a scope that has ended was there before
    intro j s hs ha
    rw [hscope] at hs
    split at hs
    · cases hs
      exact absurd ha (by simp [opened])
    · exact h.released j s hs ha
  · -- the global scope is another one than the new one
    obtain ⟨g, hg, hga⟩ := h.globalActive
    refine ⟨g, ?_, hga⟩
    rw [hscope, if_neg (Ne.symm (h.nextSlot_ne_global p)), hg]

/-! ## Capture -/

/-- A scope that is not captured is the first of those that `capture` marks. -/
theorem uncaptured_self {l : List ScopeId} (hpath : Path a i l) :
    i ∈ l.takeWhile (fun k => !a.isCaptured k) ∨ a.isCaptured i = true := by
  by_cases hi : a.isCaptured i = true
  · exact .inr hi
  · have hnot : (!a.isCaptured i) = true := by simpa using hi
    left
    cases hpath with
    | outermost =>
      rw [List.takeWhile_cons, if_pos hnot]
      exact List.mem_cons_self ..
    | inner =>
      rw [List.takeWhile_cons, if_pos hnot]
      exact List.mem_cons_self ..

/-- Of the scopes outward, those up to the first captured one: what is around one of them is also
    one, or captured. -/
theorem uncaptured_outer {l : List ScopeId} (hpath : Path a i l)
    (hj : j ∈ l.takeWhile fun k => !a.isCaptured k) (hp : a.link? j = some (some p)) :
    p ∈ l.takeWhile (fun k => !a.isCaptured k) ∨ a.isCaptured p = true := by
  induction hpath with
  -- there is nothing around the global scope
  | outermost h =>
    have hglobal : j = global := List.mem_singleton.mp ((List.takeWhile_sublist _).mem hj)
    rw [hglobal, h] at hp
    exact absurd hp (by simp)
  | @inner i q l h _ outer ih =>
    rw [List.takeWhile_cons] at hj ⊢
    split at hj
    case isFalse => exact absurd hj List.not_mem_nil
    case isTrue hi =>
      -- this scope is not captured, so the walk goes on
      rw [if_pos hi]
      rcases List.mem_cons.mp hj with rfl | hj
      · rw [h, Option.some.injEq, Option.some.injEq] at hp
        subst hp
        exact (uncaptured_self outer).imp (List.mem_cons_of_mem _) id
      · exact (ih hj).imp (List.mem_cons_of_mem _) id

theorem isCaptured_capture_of_mem (hj : j ∈ a.uncaptured i) (hsome : (a.scope? j).isSome) :
    (a.capture i).isCaptured j = true := by
  obtain ⟨s, hs⟩ := Option.isSome_iff_exists.mp hsome
  refine isCaptured_eq_true.mpr ⟨{ s with captured := true }, ?_, rfl⟩
  rw [scope?_capture, if_pos hj, hs]
  rfl

theorem isCaptured_capture (hj : a.isCaptured j = true) (i : ScopeId) :
    (a.capture i).isCaptured j = true := by
  obtain ⟨s, hs, hc⟩ := isCaptured_eq_true.mp hj
  by_cases hmem : j ∈ a.uncaptured i
  · exact isCaptured_capture_of_mem hmem (by rw [hs]; rfl)
  · refine isCaptured_eq_true.mpr ⟨s, ?_, hc⟩
    rw [scope?_capture, if_neg hmem, hs]

/-- After `capture` the scope is captured. -/
theorem Valid.isCaptured_capture_self (h : a.Valid) (hi : (a.scope? i).isSome) :
    (a.capture i).isCaptured i = true := by
  rcases uncaptured_self (h.toRooted.path_chain hi) with hmem | hc
  · exact isCaptured_capture_of_mem hmem hi
  · exact isCaptured_capture hc i

theorem Valid.capture (h : a.Valid) (hi : (a.scope? i).isSome) : (a.capture i).Valid := by
  refine ⟨h.toRooted.capture i, ?_, ?_, ?_⟩
  · intro j t p ht hc hp
    rw [scope?_capture] at ht
    split at ht
    case isTrue hmem =>
      obtain ⟨s, hs, rfl⟩ := Option.map_eq_some_iff.mp ht
      have hlink : a.link? j = some (some p) := by
        rw [link?, hs, ← hp]
        rfl
      have hpath := h.toRooted.path_chain hi
      -- marking stops only where the scope around is captured already
      rcases uncaptured_outer hpath hmem hlink with hp' | hp'
      · exact isCaptured_capture_of_mem hp' (hpath.isSome ((List.takeWhile_sublist _).mem hp'))
      · exact isCaptured_capture hp' i
    case isFalse => exact isCaptured_capture (h.outer j t p ht hc hp) i
  · intro j t ht ha
    rw [scope?_capture] at ht
    split at ht
    case isTrue =>
      obtain ⟨s, -, rfl⟩ := Option.map_eq_some_iff.mp ht
      rfl
    case isFalse => exact h.released j t ht ha
  · obtain ⟨g, hg, hga⟩ := h.globalActive
    rw [scope?_capture, hg]
    split
    · exact ⟨{ g with captured := true }, rfl, hga⟩
    · exact ⟨g, rfl, hga⟩

/-! ## Release -/

/-- The counters of an arena play no part. -/
theorem Valid.of_slots {b : Arena} (h : a.Valid) (hslots : b.slots = a.slots)
    (hfree : b.free = a.free) : b.Valid := by
  -- what is in the slots is the same
  have hscope : ∀ j, b.scope? j = a.scope? j := by
    intro j
    rw [scope?, scope?, hslots]
  have hcaptured : ∀ j, b.isCaptured j = a.isCaptured j := by
    intro j
    rw [isCaptured, isCaptured, hscope]
  refine ⟨⟨?_, ?_⟩, ?_, ?_, ?_⟩
  · rw [hslots, hfree]
    exact h.free
  · intro j hj
    rw [hscope] at hj
    obtain ⟨l, hl⟩ := h.path j hj
    exact ⟨l, hl.congr fun k _ => by rw [link?, link?, hscope]⟩
  · intro j s p hs hc hp
    rw [hcaptured]
    exact h.outer j s p (hscope j ▸ hs) hc hp
  · intro j s hs ha
    exact h.released j s (hscope j ▸ hs) ha
  · rw [hscope]
    exact h.globalActive

/-- A release touches no other scope. -/
theorem scope?_release_of_ne (hj : j ≠ i) : (a.release i).scope? j = a.scope? j := by
  unfold Arena.release
  split
  · rfl
  · split
    · show (a.update i fun s => { s with active := false }).scope? j = _
      rw [scope?_update, if_neg hj]
    · rw [scope?_vacate, if_neg hj]

/-- A captured scope stays captured. -/
theorem isCaptured_release (hj : a.isCaptured j = true) (i : ScopeId) :
    (a.release i).isCaptured j = true := by
  unfold Arena.release
  split
  · exact hj
  · split
    · have hsame : (a.update i fun s => { s with active := false }).isCaptured j = a.isCaptured j :=
        isCaptured_update fun _ => rfl
      exact hsame.trans hj
    · next hc =>
      have hne : j ≠ i := fun heq => hc (heq ▸ hj)
      rw [isCaptured, scope?_vacate, if_neg hne]
      exact hj

/-- A captured scope may stop being active. -/
theorem Valid.retired (h : a.Valid) (hi : i ≠ global) (hc : a.isCaptured i = true) :
    (a.update i fun s => { s with active := false }).Valid := by
  refine ⟨h.toRooted.update fun _ => rfl, ?_, ?_, ?_⟩
  · -- the scope around a captured one is as captured as before
    intro j t p ht htc hp
    rw [isCaptured_update (f := fun s => { s with active := false }) fun _ => rfl]
    rw [scope?_update] at ht
    split at ht
    · obtain ⟨s, hs, rfl⟩ := Option.map_eq_some_iff.mp ht
      exact h.outer j s p hs htc hp
    · exact h.outer j t p ht htc hp
  · intro j t ht ha
    rw [scope?_update] at ht
    split at ht
    -- the scope that ends is captured, as it may be
    case isTrue hji =>
      obtain ⟨s, hs, rfl⟩ := Option.map_eq_some_iff.mp ht
      obtain ⟨u, hu, huc⟩ := isCaptured_eq_true.mp hc
      rw [hji, hu] at hs
      cases hs
      exact huc
    case isFalse => exact h.released j t ht ha
  · -- the global scope does not end
    obtain ⟨g, hg, hga⟩ := h.globalActive
    exact ⟨g, by rw [scope?_update, if_neg (Ne.symm hi), hg], hga⟩

/-! ## Emptying slots -/

/-- Empties several slots. -/
def sweep (a : Arena) (ids : List ScopeId) : Arena := ids.foldl vacate a

theorem sweep_eq (ids : List ScopeId) (a : Arena) :
    a.sweep ids =
      { a with slots := Slots.clearAll a.slots ids, free := ids.reverse ++ a.free } := by
  induction ids generalizing a with
  | nil => rfl
  | cons i ids ih =>
    show (a.vacate i).sweep ids = _
    rw [ih]
    simp only [vacate, Slots.clearAll, List.foldl_cons, List.reverse_cons, List.append_assoc,
      List.singleton_append]

theorem scope?_sweep (ids : List ScopeId) (a : Arena) :
    (a.sweep ids).scope? j = if j ∈ ids then none else a.scope? j := by
  rw [sweep_eq]
  exact Slots.at?_clearAll ids

/-- A path that starts outside a set of slots stays outside, if no scope outside lies directly
    inside one of them. -/
theorem Path.avoids {ids : List ScopeId} {l : List ScopeId} (hpath : Path a i l)
    (houtside : ∀ j p, a.link? j = some (some p) → j ∉ ids → p ∉ ids) (hi : i ∉ ids) :
    ∀ j ∈ l, j ∉ ids := by
  induction hpath with
  | outermost =>
    intro j hj
    rw [List.mem_singleton.mp hj]
    exact hi
  | inner h _ _ ih =>
    intro j hj
    rcases List.mem_cons.mp hj with rfl | hj
    · exact hi
    · exact ih (houtside _ _ h hi) j hj

theorem Path.swept {ids : List ScopeId} {l : List ScopeId} (hpath : Path a i l)
    (houtside : ∀ j p, a.link? j = some (some p) → j ∉ ids → p ∉ ids) (hi : i ∉ ids) :
    Path (a.sweep ids) i l := by
  refine hpath.congr fun j hj => ?_
  rw [link?, link?, scope?_sweep, if_neg (hpath.avoids houtside hi j hj)]

/-- **Sweeping** slots that no other scope lies inside keeps an arena valid. -/
theorem Valid.swept (h : a.Valid) {ids : List ScopeId} (hnodup : ids.Nodup)
    (hids : ∀ j ∈ ids, (a.scope? j).isSome) (hglobal : global ∉ ids)
    (houtside : ∀ j p, a.link? j = some (some p) → j ∉ ids → p ∉ ids) : (a.sweep ids).Valid := by
  have hkept : ∀ j s, (a.sweep ids).scope? j = some s → j ∉ ids ∧ a.scope? j = some s := by
    intro j s hs
    rw [scope?_sweep] at hs
    split at hs
    case isTrue => exact absurd hs (by simp)
    case isFalse hj => exact ⟨hj, hs⟩
  refine ⟨⟨?_, ?_⟩, ?_, ?_, ?_⟩
  · rw [sweep_eq]
    exact h.free.clearAll hnodup hids
  · intro j hj
    obtain ⟨s, hs⟩ := Option.isSome_iff_exists.mp hj
    obtain ⟨hjids, hs⟩ := hkept j s hs
    -- the path from before is still one, as none of its scopes is emptied
    obtain ⟨l, hl⟩ := h.path j (by rw [hs]; rfl)
    exact ⟨l, hl.swept houtside hjids⟩
  · intro j s p hs hc hp
    obtain ⟨hjids, hs⟩ := hkept j s hs
    obtain ⟨t, ht, htc⟩ := isCaptured_eq_true.mp (h.outer j s p hs hc hp)
    have hpids : p ∉ ids := by
      refine houtside j p ?_ hjids
      rw [link?, hs, ← hp]
      rfl
    refine isCaptured_eq_true.mpr ⟨t, ?_, htc⟩
    rw [scope?_sweep, if_neg hpids, ht]
  · intro j s hs ha
    exact h.released j s (hkept j s hs).2 ha
  · obtain ⟨g, hg, hga⟩ := h.globalActive
    refine ⟨g, ?_, hga⟩
    rw [scope?_sweep, if_neg hglobal, hg]

end Scriptlet.Arena
