/-
  Assignment: which names an assignment changes, seen from every scope.

  1. **Sight** (`Arena.Sees`) — from a scope `t` the scope `d` is seen under a name if it is on the
     way outward from `t` and no scope before it binds the name.  The nearest definer is the scope
     that is seen and binds the name.
  2. **Binding** (`Arena.get?_declare`) — binding a name in `d` changes its value for the scopes
     that see `d` under this name, and nothing else.  Chains that run together further outward need
     no case of their own: whether they meet is a question about where `d` stands in each.
  3. **Assignment** (`Arena.assign_exact`) — the two ways an assignment can go, by whether the name
     was visible, with all that it leaves as it was.
-/
import Scriptlet.Proofs.Scope.Representation

namespace Scriptlet

/-- A new name goes to the end, with its value. -/
theorem Bindings.put_of_get?_eq_none {b : Bindings} {x : String} (h : b.get? x = none) (v : Value) :
    b.put x v = b ++ [(x, v)] := by
  induction b with
  | nil => rfl
  | cons entry rest ih =>
    obtain ⟨y, w⟩ := entry
    rw [get?] at h
    split at h
    case isTrue => exact absurd h (by simp)
    case isFalse hy => rw [put, if_neg hy, ih h, List.cons_append]

namespace Arena

variable {a b : Arena} {i j s t d : ScopeId} {x y n m : String} {v : Value}

/-! ## What a change of bindings leaves -/

theorem outward_congr (h : ∀ i, b.parent? i = a.parent? i) (bound : Nat) (i : ScopeId) :
    b.outward bound i = a.outward bound i := by
  induction bound generalizing i with
  | zero => rfl
  | succ bound ih =>
    rw [outward, outward, h]
    cases a.parent? i with
    | none => rfl
    | some p => exact congrArg (i :: ·) (ih p)

theorem parent?_declare : (a.declare d x v).parent? i = a.parent? i := by
  unfold parent? declare
  rw [scope?_update]
  split
  · cases a.scope? i <;> rfl
  · rfl

theorem chain_declare : (a.declare d x v).chain i = a.chain i := by
  have hsize : (a.declare d x v).slots.size = a.slots.size := Array.size_modify
  rw [chain, chain, hsize]
  exact outward_congr (fun _ => parent?_declare) a.slots.size i

theorem bindings_declare (hd : (a.scope? d).isSome) : (a.declare d x v).bindings i
    = if i = d then (a.bindings d).put x v else a.bindings i := by
  unfold bindings declare
  rw [scope?_update]
  split
  case isTrue hi =>
    obtain ⟨scope, hscope⟩ := Option.isSome_iff_exists.mp hd
    rw [hi, hscope]
    rfl
  case isFalse => rfl

/-- `b` has the scopes of `a` in the same slots, with the same links and marks, and their names in
    the same order with perhaps some more after them. -/
structure Resembles (a b : Arena) : Prop where
  scopes : ∀ i, (b.scope? i).map (fun s => (s.parent, s.active, s.captured)) =
    (a.scope? i).map fun s => (s.parent, s.active, s.captured)
  names : ∀ i, (a.bindings i).names <+: (b.bindings i).names
  live : b.live = a.live
  depth : ∀ i, b.depth i = a.depth i

theorem resembles_declare (hd : (a.scope? d).isSome) (x : String) (v : Value) :
    a.Resembles (a.declare d x v) := by
  refine ⟨fun i => ?_, fun i => ?_, ?_, fun i => congrArg List.length chain_declare⟩
  · rw [declare, scope?_update]
    split
    · cases a.scope? i <;> rfl
    · rfl
  · rw [bindings_declare hd]
    split
    case isFalse => exact List.prefix_refl _
    case isTrue hi =>
      rw [hi, Bindings.names_put]
      split
      · exact List.prefix_refl _
      · exact List.prefix_append ..
  · exact congrArg (· - a.free.length) Array.size_modify

/-! ## Sight -/

/-- From `t` outward there is `d`, and no scope before it binds the name. -/
def Sees (a : Arena) (t d : ScopeId) (n : String) : Prop :=
  ∃ nearer farther, a.chain t = nearer ++ d :: farther ∧ ∀ j ∈ nearer, (a.bindings j).get? n = none

/-- The nearest definer is the scope that is seen and binds the name. -/
theorem definer?_eq_some_iff :
    a.definer? t n = some d ↔ a.Sees t d n ∧ ((a.bindings d).get? n).isSome := by
  unfold definer? Sees
  rw [List.find?_eq_some_iff_append, and_comm]
  simp only [Bool.not_eq_true', Option.isSome_eq_false_iff, Option.isNone_iff_eq_none]

theorem definer?_eq_none_iff : a.definer? s n = none ↔ a.get? s n = none := by
  unfold definer? get?
  rw [List.find?_eq_none, List.findSome?_eq_none_iff]
  simp only [Bool.not_eq_true, Option.isSome_eq_false_iff, Option.isNone_iff_eq_none]

/-- Every scope in use sees itself. -/
theorem Rooted.sees_self (h : a.Rooted) (hs : (a.scope? s).isSome) (n : String) : a.Sees s s n := by
  have hpath := h.path_chain hs
  obtain ⟨farther, hchain⟩ : ∃ farther, a.chain s = s :: farther := by
    generalize a.chain s = l at hpath
    cases hpath with
    | outermost => exact ⟨[], rfl⟩
    | inner => exact ⟨_, rfl⟩
  exact ⟨[], farther, hchain, fun j hj => absurd hj List.not_mem_nil⟩

/-! ## Binding -/

/-- A name bound in a scope that is seen has the new value. -/
theorem get?_declare_of_sees (hd : (a.scope? d).isSome) (h : a.Sees t d n) (v : Value) :
    (a.declare d n v).get? t n = some v := by
  obtain ⟨nearer, farther, hchain, hnearer⟩ := h
  rw [get?, chain_declare, hchain, List.findSome?_append, List.findSome?_cons]
  have hhere : ((a.declare d n v).bindings d).get? n = some v := by
    rw [bindings_declare hd, if_pos rfl, Bindings.get?_put, if_pos rfl]
  rw [hhere]
  -- a scope before `d` still does not bind the name, unless it is `d` itself
  cases hfirst : nearer.findSome? fun i => ((a.declare d n v).bindings i).get? n with
  | none => rfl
  | some w =>
    obtain ⟨j, hj, hw⟩ := List.exists_of_findSome?_eq_some hfirst
    rw [bindings_declare hd] at hw
    split at hw
    · rw [Bindings.get?_put, if_pos rfl] at hw
      rw [Option.some_or, hw]
    · rw [hnearer j hj] at hw
      exact absurd hw (by simp)

/-- Two searches of a list agree if they agree up to where the first of them finds something. -/
theorem findSome?_eq_of_sees {β : Type} {l : List ScopeId} {f g : ScopeId → Option β}
    (h : ∀ nearer i farther, l = nearer ++ i :: farther → (∀ j ∈ nearer, f j = none) →
      g i = f i) : l.findSome? g = l.findSome? f := by
  induction l with
  | nil => rfl
  | cons i l ih =>
    rw [List.findSome?_cons, List.findSome?_cons, h [] i l rfl fun j hj => absurd hj List.not_mem_nil]
    cases hi : f i with
    | some w => rfl
    | none =>
      refine ih fun nearer k farther hl hnearer => ?_
      refine h (i :: nearer) k farther (congrArg (i :: ·) hl) fun j hj => ?_
      rcases List.mem_cons.mp hj with rfl | hj
      · exact hi
      · exact hnearer j hj

/-- Any other name, and any scope that does not see the change, keeps its value. -/
theorem get?_declare_of_not_sees (hd : (a.scope? d).isSome) (h : ¬(m = n ∧ a.Sees t d n))
    (v : Value) : (a.declare d n v).get? t m = a.get? t m := by
  rw [get?, get?, chain_declare]
  refine findSome?_eq_of_sees fun nearer i farther hchain hnearer => ?_
  rw [bindings_declare hd]
  split
  case isFalse => rfl
  case isTrue hi =>
    subst hi
    have hm : m ≠ n := by
      rintro rfl
      exact h ⟨rfl, nearer, farther, hchain, hnearer⟩
    rw [Bindings.get?_put, if_neg hm]

/-! ## Assignment -/

theorem assign_of_definer? (h : a.definer? s n = some d) : a.assign s n v = a.declare d n v := by
  rw [assign, h]
  rfl

theorem assign_of_not_visible (h : a.get? s n = none) : a.assign s n v = a.declare s n v := by
  rw [assign, definer?_eq_none_iff.mpr h]
  rfl

/-- The nearest definer is in use. -/
theorem isSome_of_definer? (h : a.definer? s n = some d) : (a.scope? d).isSome := by
  have hbound := (definer?_eq_some_iff.mp h).2
  unfold bindings at hbound
  cases hd : a.scope? d with
  | some scope => rfl
  | none =>
    rw [hd] at hbound
    exact absurd hbound (by simp [Bindings.get?])

/-- **An assignment changes exactly one binding.**  If the name was visible it has the new value in
    the scopes that have the same nearest definer; else it is added to the scope itself, and has the
    value in those that see this scope and no definer before it.  Any other value is what it was,
    and so are links, marks, the order of names, the number of scopes and their depths. -/
theorem assign_exact (h : Representation a) (hs : (a.scope? s).isSome) (ht : (a.scope? t).isSome)
    (n m : String) (v : Value) :
    Representation (a.assign s n v) ∧
    Path (a.assign s n v) t (a.chain t) ∧
    a.Resembles (a.assign s n v) ∧
    (a.assign s n v).get? s n = some v ∧
    ((a.get? s n).isSome →
      (∀ i, ((a.assign s n v).bindings i).names = (a.bindings i).names) ∧
      (m = n ∧ a.definer? t n = a.definer? s n → (a.assign s n v).get? t m = some v) ∧
      (¬(m = n ∧ a.definer? t n = a.definer? s n) → (a.assign s n v).get? t m = a.get? t m)) ∧
    (a.get? s n = none →
      (a.assign s n v).bindings s = a.bindings s ++ [(n, v)] ∧
      (∀ i, i ≠ s → (a.assign s n v).bindings i = a.bindings i) ∧
      (m = n ∧ a.Sees t s n → (a.assign s n v).get? t m = some v) ∧
      (¬(m = n ∧ a.Sees t s n) → (a.assign s n v).get? t m = a.get? t m)) := by
  have hallowed : (Operation.assign s n v).Allowed a := hs
  have hvalid : (a.assign s n v).Valid := h.valid.apply hallowed
  -- an assignment changes no link
  have hpath : Path (a.assign s n v) t (a.chain t) := by
    refine (h.path t ht).congr fun j _ => ?_
    exact link?_update fun _ => rfl
  refine ⟨hvalid.toRepresentation, hpath, ?_⟩
  cases hdefiner : a.definer? s n with
  | some d =>
    -- the name is visible: its definer is rebound
    have hd := isSome_of_definer? hdefiner
    obtain ⟨hsees, hbound⟩ := definer?_eq_some_iff.mp hdefiner
    have hvisible : a.get? s n ≠ none := by
      rw [ne_eq, ← definer?_eq_none_iff, hdefiner]
      exact Option.some_ne_none d
    rw [assign_of_definer? hdefiner]
    refine ⟨resembles_declare hd n v, get?_declare_of_sees hd hsees v, fun _ => ⟨fun i => ?_, ?_, ?_⟩,
      fun hnone => absurd hnone hvisible⟩
    · rw [bindings_declare hd]
      split
      -- the name was bound there, so it keeps its place
      case isTrue hi => rw [Bindings.names_put, if_pos hbound, hi]
      case isFalse => rfl
    · rintro ⟨rfl, hsame⟩
      exact get?_declare_of_sees hd (definer?_eq_some_iff.mp hsame).1 v
    · -- any other name, or this one from where another scope defines it
      intro hnot
      refine get?_declare_of_not_sees hd (fun ⟨hm, hseen⟩ => hnot ⟨hm, ?_⟩) v
      exact definer?_eq_some_iff.mpr ⟨hseen, hbound⟩
  | none =>
    have hnone := definer?_eq_none_iff.mp hdefiner
    -- the name is not visible: it is declared in the scope itself
    have hself := h.valid.toRooted.sees_self hs n
    have hunbound : (a.bindings s).get? n = none := by
      refine Option.not_isSome_iff_eq_none.mp fun hbound => ?_
      rw [definer?_eq_some_iff.mpr ⟨hself, hbound⟩] at hdefiner
      exact absurd hdefiner (by simp)
    rw [assign_of_not_visible hnone]
    refine ⟨resembles_declare hs n v, get?_declare_of_sees hs hself v, fun hsome => ?_,
      fun _ => ⟨?_, fun i hi => ?_, ?_, fun hnot => get?_declare_of_not_sees hs hnot v⟩⟩
    · -- a name that is not visible has no value
      rw [hnone] at hsome
      exact absurd hsome (by simp)
    · -- the new binding is the last one
      rw [bindings_declare hs, if_pos rfl, Bindings.put_of_get?_eq_none hunbound]
    · rw [bindings_declare hs, if_neg hi]
    · -- it is seen from wherever nothing nearer hides it
      rintro ⟨rfl, hseen⟩
      exact get?_declare_of_sees hs hseen v

/-- Slots 2 and 3 lie side by side in slot 1, which binds a name that the global scope binds too. -/
def shadowed : Arena :=
  [Operation.push 0, .push 1, .push 1, .declare 0 "x" .nil, .declare 1 "x" .nil].foldl
    (fun a op => op.apply a) empty

/-- An assignment in slot 2 is seen from slot 3, which has the same definer, and not from outside
    of it; a name that is new is bound in slot 2 only. -/
theorem assign_exact_shadowed :
    Representation shadowed ∧
    (shadowed.assign 2 "x" (.bool true)).get? 3 "x" = some (.bool true) ∧
    (shadowed.assign 2 "x" (.bool true)).get? 0 "x" = some .nil ∧
    (shadowed.assign 2 "y" (.bool true)).get? 3 "y" = none := by
  have inside := Reachable.step (.push 1) (.step (.push 1) (.step (.push 0) .empty rfl) rfl) rfl
  have bound := (inside.step (.declare 0 "x" .nil) rfl).step (.declare 1 "x" .nil) rfl
  have hshadowed : Representation shadowed := bound.valid.toRepresentation
  have hx : ∀ t, (shadowed.scope? t).isSome → _ := fun t ht =>
    (assign_exact hshadowed (s := 2) (t := t) rfl ht "x" "x" (.bool true)).2.2.2.2.1 rfl
  have hy := (assign_exact hshadowed (s := 2) (t := 3) rfl rfl "y" "y" (.bool true)).2.2.2.2.2 rfl
  refine ⟨hshadowed, (hx 3 rfl).2.1 ⟨rfl, rfl⟩, (hx 0 rfl).2.2 ?_, hy.2.2.2 ?_⟩
  · -- the global scope has a binding of its own
    exact fun ⟨_, hsame⟩ => absurd hsame (by decide)
  · rintro ⟨-, nearer, farther, hchain, -⟩
    have hmem : 2 ∈ shadowed.chain 3 := by
      rw [hchain]
      exact List.mem_append_right _ (List.mem_cons_self ..)
    exact absurd hmem (by decide)

end Arena

end Scriptlet
