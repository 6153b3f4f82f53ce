/-
  The links of an arena: from every scope outward to the global one.

  1. **View** — `Arena.scope?` after each operation, as one equation.
  2. **Paths** (`Arena.Path`) — the scopes from one outward, none of them twice, ending with the
     global scope.  A path is what `Arena.chain` computes, because it has no more scopes than there
     are slots.
  3. **Rooted arenas** (`Arena.Rooted`) — every scope has a path, and the free list names the empty
     slots.  Slots are used again, so a number says nothing about who is around whom; what `push`
     relies on is that an empty slot is on no path.
-/
import Scriptlet.Proofs.Scope.Slots

namespace Scriptlet.Arena

variable {a b : Arena} {i j p : ScopeId} {s : Scope} {l : List ScopeId}

/-! ## What a slot holds -/

/-- An update changes the scope in one slot, if there is one. -/
theorem scope?_update (f : Scope → Scope) :
    (a.update i f).scope? j = if j = i then (a.scope? j).map f else a.scope? j :=
  Slots.at?_modify f

/-- Vacating empties one slot. -/
theorem scope?_vacate : (a.vacate i).scope? j = if j = i then none else a.scope? j :=
  Slots.at?_clear

/-- The scope that `push` opens. -/
def opened (parent : ScopeId) : Scope := ⟨[], some parent, true, false⟩

/-- The next slot that `push` fills. -/
def nextSlot (a : Arena) (parent : ScopeId) : ScopeId :=
  (Slots.fill a.slots a.free (opened parent)).1

/-- The arena after `push`. -/
def pushed (a : Arena) (parent : ScopeId) : Arena :=
  { a with
    slots := (Slots.fill a.slots a.free (opened parent)).2.1
    free := (Slots.fill a.slots a.free (opened parent)).2.2 }

/-- What `push` does, in one equation for both cases of the free list. -/
theorem push_eq (a : Arena) (parent : ScopeId) :
    a.push parent = (a.nextSlot parent, a.pushed parent) := by
  obtain ⟨slots, free, retained, threshold⟩ := a
  cases free <;> rfl

/-- A captured scope is in use. -/
theorem isCaptured_eq_true :
    a.isCaptured i = true ↔ ∃ s, a.scope? i = some s ∧ s.captured = true := by
  unfold isCaptured
  cases a.scope? i with
  | none => simp
  | some s => simp

/-! ## Paths -/

/-- The scope around the scope in a slot: nothing for an empty slot, `some none` for a scope with
    none around it. -/
def link? (a : Arena) (i : ScopeId) : Option (Option ScopeId) := (a.scope? i).map Scope.parent

/-- An update that keeps the scope around keeps every link. -/
theorem link?_update {f : Scope → Scope} (hf : ∀ s, (f s).parent = s.parent) :
    (a.update i f).link? j = a.link? j := by
  unfold link?
  rw [scope?_update]
  split
  · cases a.scope? j with
    | none => rfl
    | some s => exact congrArg some (hf s)
  · rfl

theorem link?_eq_none : a.link? i = none ↔ a.scope? i = none := Option.map_eq_none_iff

theorem isSome_of_link? {x : Option ScopeId} (h : a.link? i = some x) : (a.scope? i).isSome := by
  obtain ⟨s, hs, -⟩ := Option.map_eq_some_iff.mp h
  rw [hs]
  rfl

theorem parent?_of_link? {x : Option ScopeId} (h : a.link? i = some x) : a.parent? i = x := by
  obtain ⟨s, hs, rfl⟩ := Option.map_eq_some_iff.mp h
  rw [parent?, hs]
  rfl

/-- The scopes from `i` outward to the global scope, none of them twice. -/
inductive Path (a : Arena) : ScopeId → List ScopeId → Prop
  | outermost (h : a.link? global = some none) : Path a global [global]
  | inner {i p : ScopeId} {l : List ScopeId} (h : a.link? i = some (some p))
      (hi : i ∉ l) (outer : Path a p l) : Path a i (i :: l)

namespace Path

/-- A path leads through slots that are filled. -/
theorem isSome (h : Path a i l) (hj : j ∈ l) : (a.scope? j).isSome := by
  induction h with
  | outermost h =>
    rw [List.mem_singleton.mp hj]
    exact isSome_of_link? h
  | inner h _ _ ih =>
    rcases List.mem_cons.mp hj with rfl | hj
    · exact isSome_of_link? h
    · exact ih hj

/-- **A path never returns to a scope**: the list it leads through ends. -/
theorem nodup (h : Path a i l) : l.Nodup := by
  induction h with
  | outermost => exact List.nodup_cons.mpr ⟨List.not_mem_nil, List.nodup_nil⟩
  | inner _ hi _ ih => exact List.nodup_cons.mpr ⟨hi, ih⟩

/-- A path depends on the links along it only. -/
theorem congr (h : Path a i l) (hlinks : ∀ j ∈ l, b.link? j = a.link? j) : Path b i l := by
  induction h with
  | outermost h => exact .outermost ((hlinks global (List.mem_cons_self ..)).trans h)
  | inner h hi _ ih =>
    refine .inner ((hlinks _ (List.mem_cons_self ..)).trans h) hi (ih fun j hj => ?_)
    exact hlinks j (List.mem_cons_of_mem _ hj)

theorem mem_self (h : Path a i l) : i ∈ l := by
  cases h <;> exact List.mem_cons_self ..

end Path

theorem Path.outward_eq (h : Path a i l) (n : Nat) (hn : l.length ≤ n) : a.outward n i = l := by
  induction h generalizing n with
  | outermost h =>
    obtain ⟨m, rfl⟩ : ∃ m, n = m + 1 := ⟨n - 1, by simp at hn; omega⟩
    rw [outward, parent?_of_link? h]
  | inner h _ _ ih =>
    rw [List.length_cons] at hn
    obtain ⟨m, rfl⟩ : ∃ m, n = m + 1 := ⟨n - 1, by omega⟩
    rw [outward, parent?_of_link? h]
    exact congrArg (_ :: ·) (ih m (by omega))

/-- A path has no more scopes than there are slots. -/
theorem Path.length_le (h : Path a i l) : l.length ≤ a.slots.size := by
  have hrange : l ⊆ List.range a.slots.size := by
    intro j hj
    obtain ⟨s, hs⟩ := Option.isSome_iff_exists.mp (h.isSome hj)
    exact List.mem_range.mpr (Slots.lt_size hs)
  have hlength := h.nodup.length_le_of_subset hrange
  rwa [List.length_range] at hlength

/-- **A path is the chain.** -/
theorem Path.chain_eq (h : Path a i l) : a.chain i = l := h.outward_eq _ h.length_le

/-! ## Rooted arenas -/

/-- Every scope has a path to the global scope, and the free list is right. -/
structure Rooted (a : Arena) : Prop where
  free : Slots.FreeList a.slots a.free
  path : ∀ i, (a.scope? i).isSome → ∃ l, Path a i l

namespace Rooted

/-- **From every scope the chain is a path** to the global one. -/
theorem path_chain (h : a.Rooted) (hi : (a.scope? i).isSome) : Path a i (a.chain i) := by
  obtain ⟨l, hl⟩ := h.path i hi
  rw [hl.chain_eq]
  exact hl

/-- The scope around a scope is in use. -/
theorem parent_isSome (h : a.Rooted) (hs : a.scope? i = some s) (hp : s.parent = some p) :
    (a.scope? p).isSome := by
  have hlink : a.link? i = some (some p) := by rw [link?, hs, ← hp]; rfl
  obtain ⟨l, hpath⟩ := h.path i (isSome_of_link? hlink)
  cases hpath with
  | outermost hnone =>
    rw [hnone] at hlink
    exact absurd hlink (by simp)
  | inner hsome _ outer =>
    rw [hsome, Option.some.injEq, Option.some.injEq] at hlink
    rw [← hlink]
    exact outer.isSome outer.mem_self

/-- Changes that keep the links keep the paths. -/
theorem update (h : a.Rooted) {f : Scope → Scope} (hf : ∀ s, (f s).parent = s.parent) :
    (a.update i f).Rooted := by
  refine ⟨h.free.modify f, fun j hj => ?_⟩
  have hlinks : ∀ k, (a.update i f).link? k = a.link? k := fun k => link?_update hf
  have hsome : (a.scope? j).isSome := by
    rw [Option.isSome_iff_ne_none, ne_eq, ← link?_eq_none, ← hlinks, link?_eq_none]
    exact Option.isSome_iff_ne_none.mp hj
  obtain ⟨l, hl⟩ := h.path j hsome
  exact ⟨l, hl.congr fun k _ => hlinks k⟩

/-- **Opening a scope**: its slot was empty, and all others stay as they were. -/
theorem scope?_pushed (h : a.Rooted) (p : ScopeId) :
    a.scope? (a.nextSlot p) = none ∧
      ∀ j, (a.pushed p).scope? j = if j = a.nextSlot p then some (opened p) else a.scope? j :=
  ⟨(h.free.fill (opened p)).1, (h.free.fill (opened p)).2.1⟩

/-- An empty slot is on no path, so the paths stay when it is filled. -/
theorem path_pushed (h : a.Rooted) (hpath : Path a i l) (p : ScopeId) :
    a.nextSlot p ∉ l ∧ Path (a.pushed p) i l := by
  obtain ⟨hempty, hscope⟩ := h.scope?_pushed p
  have hnotin : a.nextSlot p ∉ l := by
    intro hmem
    have hsome := hpath.isSome hmem
    rw [hempty] at hsome
    exact absurd hsome (by simp)
  refine ⟨hnotin, hpath.congr fun k hk => ?_⟩
  have hne : k ≠ a.nextSlot p := by
    rintro rfl
    exact hnotin hk
  rw [link?, link?, hscope, if_neg hne]

/-- A scope opened inside one in use leaves an arena rooted. -/
theorem pushed (h : a.Rooted) (hp : (a.scope? p).isSome) : (a.pushed p).Rooted := by
  obtain ⟨-, hscope⟩ := h.scope?_pushed p
  refine ⟨(h.free.fill (opened p)).2.2, fun j hj => ?_⟩
  by_cases heq : j = a.nextSlot p
  · obtain ⟨l, hl⟩ := h.path p hp
    obtain ⟨hnotin, hpath⟩ := h.path_pushed hl p
    refine ⟨j :: l, .inner ?_ (heq ▸ hnotin) hpath⟩
    rw [link?, hscope, if_pos heq]
    rfl
  · rw [hscope, if_neg heq] at hj
    obtain ⟨l, hl⟩ := h.path j hj
    exact ⟨l, (h.path_pushed hl p).2⟩

end Rooted

/-! ## Several updates -/

/-- The same update of several scopes, which does no more when done twice. -/
theorem scope?_updateAll {f : Scope → Scope} (hf : ∀ s, f (f s) = f s) (ids : List ScopeId)
    (a : Arena) : (ids.foldl (fun a i => a.update i f) a).scope? j
      = if j ∈ ids then (a.scope? j).map f else a.scope? j := by
  induction ids generalizing a with
  | nil => exact (if_neg List.not_mem_nil).symm
  | cons i ids ih =>
    rw [List.foldl_cons, ih, scope?_update]
    by_cases hji : j = i
    · rw [if_pos hji, if_pos (List.mem_cons.mpr (.inl hji))]
      split
      · cases a.scope? j with
        | none => rfl
        | some s => exact congrArg some (hf s)
      · rfl
    · rw [if_neg hji]
      simp only [List.mem_cons, hji, false_or]

/-- Updates that keep the scopes around keep an arena rooted. -/
theorem Rooted.updateAll (h : a.Rooted) {f : Scope → Scope} (hf : ∀ s, (f s).parent = s.parent)
    (ids : List ScopeId) : (ids.foldl (fun a i => a.update i f) a).Rooted := by
  induction ids generalizing a with
  | nil => exact h
  | cons i ids ih => exact ih (h.update hf)

/-- The scopes that `capture` marks: those on the way outward up to the first marked one. -/
def uncaptured (a : Arena) (i : ScopeId) : List ScopeId :=
  (a.chain i).takeWhile fun j => !a.isCaptured j

/-- Capturing marks the scopes outward that are not marked yet, and changes nothing else. -/
theorem scope?_capture : (a.capture i).scope? j
    = if j ∈ a.uncaptured i then (a.scope? j).map fun s => { s with captured := true }
      else a.scope? j :=
  scope?_updateAll (f := fun s => { s with captured := true }) (fun _ => rfl) (a.uncaptured i) a

/-- Capture changes marks only. -/
theorem scope?_capture_map (a : Arena) (i j : ScopeId) : ∃ f : Bool → Bool,
    (a.capture i).scope? j = (a.scope? j).map fun s => { s with captured := f s.captured } := by
  rw [scope?_capture]
  split
  · exact ⟨fun _ => true, rfl⟩
  · exact ⟨id, Option.map_id'.symm⟩

/-- Capture changes no links. -/
theorem link?_capture (a : Arena) (i j : ScopeId) : (a.capture i).link? j = a.link? j := by
  obtain ⟨f, hf⟩ := a.scope?_capture_map i j
  rw [link?, link?, hf, Option.map_map]
  rfl

theorem Rooted.capture (h : a.Rooted) (i : ScopeId) : (a.capture i).Rooted :=
  h.updateAll (f := fun s => { s with captured := true }) (fun _ => rfl) (a.uncaptured i)

theorem Rooted.declare (h : a.Rooted) (i : ScopeId) (x : String) (v : Value) :
    (a.declare i x v).Rooted :=
  h.update fun _ => rfl

theorem Rooted.deactivate (h : a.Rooted) (i : ScopeId) : (a.deactivate i).Rooted := by
  unfold Arena.deactivate
  split
  · exact h
  · exact h.update fun _ => rfl

end Scriptlet.Arena
