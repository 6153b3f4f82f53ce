/-
  Mirrors: one machine seen in another that numbers its scopes and closures differently.

  1. **Mirrors** (`Machine.Mirrors`) — every scope and every closure of the first machine has its
     counterpart in the second, no two the same one.  What the second machine has besides does not
     matter, so the first may give away what it no longer needs.
  2. **Steps** — looking up, binding, opening a scope and defining a function keep a mirror, with
     one more number assigned for each new scope or closure.
-/
import Mathlib.Data.List.Find
import Scriptlet.Proofs.Eval.Renaming
import Scriptlet.Proofs.Eval.Validity

namespace Scriptlet

/-! ## Numberings -/

/-- The numbering in which `i` has the number `k`. -/
def renumber (f : Nat → Nat) (i k : Nat) : Nat → Nat := fun j => if j = i then k else f j

theorem renumber_self (f : Nat → Nat) (i k : Nat) : renumber f i k i = k := if_pos rfl

theorem renumber_of_ne {f : Nat → Nat} {i j k : Nat} (h : j ≠ i) : renumber f i k j = f j :=
  if_neg h

/-- A number for one more index, not used before, keeps a numbering injective. -/
theorem renumber_inj {f : Nat → Nat} {P : Nat → Prop} {i k : Nat}
    (hinj : ∀ j l, P j → P l → f j = f l → j = l) (hi : ¬P i) (hk : ∀ j, P j → f j ≠ k) :
    ∀ j l, j = i ∨ P j → l = i ∨ P l → renumber f i k j = renumber f i k l → j = l := by
  have hne : ∀ j, P j → j ≠ i := by
    rintro j hj rfl
    exact hi hj
  rintro j l (rfl | hj) (rfl | hl) heq
  · rfl
  · rw [renumber_self, renumber_of_ne (hne l hl)] at heq
    exact absurd heq.symm (hk l hl)
  · rw [renumber_self, renumber_of_ne (hne j hj)] at heq
    exact absurd heq (hk j hj)
  · rw [renumber_of_ne (hne j hj), renumber_of_ne (hne l hl)] at heq
    exact hinj j l hj hl heq

/-- A new number for a slot that was empty: the slots in use keep their numbers, and none of them
    is the new one if that was empty on the other side. -/
theorem renumber_old {β γ : Type} {left : Nat → Option β} {right : Nat → Option γ} {f : Nat → Nat}
    {i j k : Nat} (hi : left i = none) (hk : right k = none)
    (hf : ∀ j, (left j).isSome → (right (f j)).isSome) (hj : (left j).isSome) :
    renumber f i k j = f j ∧ f j ≠ k := by
  constructor
  · refine renumber_of_ne ?_
    rintro rfl
    rw [hi] at hj
    exact absurd hj (by simp)
  · rintro rfl
    have hsome := hf j hj
    rw [hk] at hsome
    exact absurd hsome (by simp)

/-- Two searches that agree on every element find the same. -/
theorem findSome?_of_forall {β γ : Type} {l : List β} {f g : β → Option γ}
    (h : ∀ x ∈ l, f x = g x) : l.findSome? f = l.findSome? g := by
  induction l with
  | nil => rfl
  | cons x l ih =>
    rw [List.findSome?_cons, List.findSome?_cons, h x (List.mem_cons_self ..),
      ih fun y hy => h y (List.mem_cons_of_mem x hy)]

namespace Machine

variable {α : Type} {m n : Machine α} {σ φ : Nat → Nat} {stack : List ScopeId} {held : List Value}
  {i j p : ScopeId} {v : Value} {x : String}

/-! ## Mirrors -/

/-- The second machine has a counterpart of every scope and closure of the first: `σ` numbers the
    scopes, `φ` the closures. -/
structure Mirrors (σ φ : Nat → Nat) (m n : Machine α) : Prop where
  rooted : n.arena.Rooted
  table : Slots.FreeList n.closures n.freeClosures
  scopes : ∀ i s, m.arena.scope? i = some s → ∃ t, n.arena.scope? (σ i) = some t ∧
    t.bindings = s.bindings.rename φ ∧ t.parent = s.parent.map σ
  closures : ∀ id c, m.closure? id = some c →
    n.closure? (φ id) = some { c with scope := σ c.scope }
  scopes_inj : ∀ i j, (m.arena.scope? i).isSome → (m.arena.scope? j).isSome → σ i = σ j → i = j
  closures_inj : ∀ i j, (m.closure? i).isSome → (m.closure? j).isSome → φ i = φ j → i = j
  global : σ Arena.global = Arena.global
  output : n.output = m.output
  depth : n.depth = m.depth
  calls : n.calls = m.calls

namespace Mirrors

theorem isSome (h : Mirrors σ φ m n) (hi : (m.arena.scope? i).isSome) :
    (n.arena.scope? (σ i)).isSome := by
  obtain ⟨s, hs⟩ := Option.isSome_iff_exists.mp hi
  obtain ⟨t, ht, -⟩ := h.scopes i s hs
  rw [ht]
  rfl

/-! ## Looking up -/

/-- A path has a counterpart, scope by scope. -/
theorem path (h : Mirrors σ φ m n) {l : List ScopeId} (hpath : m.arena.Path i l) :
    n.arena.Path (σ i) (l.map σ) := by
  -- a link has a counterpart between the counterparts
  have hlink : ∀ i q, m.arena.link? i = some q → n.arena.link? (σ i) = some (q.map σ) := by
    intro i q hq
    obtain ⟨s, hs, rfl⟩ := Option.map_eq_some_iff.mp hq
    obtain ⟨t, ht, -, hparent⟩ := h.scopes i s hs
    rw [Arena.link?, ht, Option.map_some, hparent]
  induction hpath with
  | outermost hnone =>
    have hglobal := hlink _ _ hnone
    rw [h.global] at hglobal
    rw [List.map_cons, List.map_nil, h.global]
    exact .outermost hglobal
  | inner hsome hi outer ih =>
    refine .inner (hlink _ _ hsome) ?_ ih
    -- different scopes have different counterparts, so the path still never returns
    intro hmem
    obtain ⟨j, hj, heq⟩ := List.mem_map.mp hmem
    have := h.scopes_inj _ _ (outer.isSome hj) (Arena.isSome_of_link? hsome) heq
    exact hi (this ▸ hj)

/-- So has the chain outward from a scope. -/
theorem chain (h : Mirrors σ φ m n) (hm : m.arena.Rooted) (hi : (m.arena.scope? i).isSome) :
    n.arena.chain (σ i) = (m.arena.chain i).map σ :=
  (h.path (hm.path_chain hi)).chain_eq

theorem bindings (h : Mirrors σ φ m n) (hi : (m.arena.scope? i).isSome) :
    n.arena.bindings (σ i) = (m.arena.bindings i).rename φ := by
  obtain ⟨s, hs⟩ := Option.isSome_iff_exists.mp hi
  obtain ⟨t, ht, hbindings, -⟩ := h.scopes i s hs
  rw [Arena.bindings, Arena.bindings, hs, ht]
  exact hbindings

/-- **A name has the same value**, renamed. -/
theorem get? (h : Mirrors σ φ m n) (hm : m.arena.Rooted) (hi : (m.arena.scope? i).isSome)
    (x : String) : n.arena.get? (σ i) x = (m.arena.get? i x).map (Value.rename φ) := by
  have hpath := hm.path_chain hi
  rw [Arena.get?, Arena.get?, h.chain hm hi, List.findSome?_map, List.map_findSome?]
  refine findSome?_of_forall fun j hj => ?_
  exact (congrArg (Bindings.get? · x) (h.bindings (hpath.isSome hj))).trans
    (Bindings.get?_rename _ x)

/-- **A name is bound by the same scope**, renumbered. -/
theorem definer? (h : Mirrors σ φ m n) (hm : m.arena.Rooted) (hi : (m.arena.scope? i).isSome)
    (x : String) : n.arena.definer? (σ i) x = (m.arena.definer? i x).map σ := by
  have hpath := hm.path_chain hi
  rw [Arena.definer?, Arena.definer?, h.chain hm hi, List.find?_map]
  refine congrArg (Option.map σ) (List.find?_congr fun j hj => ?_)
  show ((n.arena.bindings (σ j)).get? x).isSome = ((m.arena.bindings j).get? x).isSome
  rw [h.bindings (hpath.isSome hj), Bindings.get?_rename, Option.isSome_map]

/-! ## Binding -/

/-- **Declaring a name** on both machines keeps the mirror. -/
theorem declare (h : Mirrors σ φ m n) (hi : (m.arena.scope? i).isSome) (x : String) (v : Value) :
    Mirrors σ φ (m.declare i x v) (n.declare (σ i) x (v.rename φ)) := by
  have hm : ∀ j, (m.declare i x v).arena.scope? j = if j = i
      then (m.arena.scope? j).map fun s => { s with bindings := s.bindings.put x v }
      else m.arena.scope? j := fun j => Arena.scope?_update _
  have hn : ∀ j, (n.declare (σ i) x (v.rename φ)).arena.scope? j = if j = σ i
      then (n.arena.scope? j).map fun s => { s with bindings := s.bindings.put x (v.rename φ) }
      else n.arena.scope? j := fun j => Arena.scope?_update _
  have hsome : ∀ j, ((m.declare i x v).arena.scope? j).isSome → (m.arena.scope? j).isSome := by
    intro j hj
    rw [hm] at hj
    split at hj
    · rwa [Option.isSome_map] at hj
    · exact hj
  refine ⟨h.rooted.declare (σ i) x _, h.table, ?_, h.closures, ?_, h.closures_inj, h.global,
    h.output, h.depth, h.calls⟩
  · intro j s hs
    rw [hm] at hs
    rw [hn]
    split at hs
    case isTrue hj =>
      obtain ⟨u, hu, rfl⟩ := Option.map_eq_some_iff.mp hs
      obtain ⟨t, ht, hbindings, hparent⟩ := h.scopes j u hu
      rw [if_pos (congrArg σ hj), ht]
      refine ⟨_, rfl, ?_, hparent⟩
      rw [← Bindings.put_rename, ← hbindings]
    case isFalse hj =>
      -- another scope has another counterpart, which is not touched
      obtain ⟨t, ht, hrest⟩ := h.scopes j s hs
      have hne : σ j ≠ σ i := fun heq => hj (h.scopes_inj j i (by rw [hs]; rfl) hi heq)
      rw [if_neg hne]
      exact ⟨t, ht, hrest⟩
  · intro j k hj hk
    exact h.scopes_inj j k (hsome j hj) (hsome k hk)

/-- The scope that an assignment changes. -/
theorem definer_isSome (hm : m.arena.Rooted) (hi : (m.arena.scope? i).isSome) (x : String) :
    (m.arena.scope? ((m.arena.definer? i x).getD i)).isSome := by
  cases hd : m.arena.definer? i x with
  | none => exact hi
  | some d => exact (hm.path_chain hi).isSome (List.mem_of_find?_eq_some hd)

/-- **Assigning to a name** finds its definer on both machines, so the mirror is kept. -/
theorem assign (h : Mirrors σ φ m n) (hm : m.arena.Rooted) (hi : (m.arena.scope? i).isSome)
    (x : String) (v : Value) :
    Mirrors σ φ (m.assign i x v) (n.assign (σ i) x (v.rename φ)) := by
  have htarget : (n.arena.definer? (σ i) x).getD (σ i) = σ ((m.arena.definer? i x).getD i) := by
    rw [h.definer? hm hi, Option.getD_map]
  have hdeclare := h.declare (definer_isSome hm hi x) x v
  rw [← htarget] at hdeclare
  exact hdeclare

/-! ## Opening a scope -/

/-- **Opening a scope** extends the numbering by the two new slots. -/
theorem opening (h : Mirrors σ φ m n) (hm : m.Valid stack held) (hp : (m.arena.scope? p).isSome) :
    Mirrors (renumber σ (m.arena.nextSlot p) (n.arena.nextSlot (σ p))) φ (m.opening p)
      (n.opening (σ p)) := by
  obtain ⟨hempty, hscope⟩ := hm.arena.toRooted.scope?_pushed p
  obtain ⟨hempty', hscope'⟩ := h.rooted.scope?_pushed (σ p)
  -- scopes of before keep their number, which is not that of the new one
  have hold : ∀ j, (m.arena.scope? j).isSome →
      renumber σ (m.arena.nextSlot p) (n.arena.nextSlot (σ p)) j = σ j ∧
        σ j ≠ n.arena.nextSlot (σ p) :=
    fun j hj => renumber_old hempty hempty' (fun _ => h.isSome) hj
  -- a scope is the new one, or it is of before
  have hcases : ∀ j, ((m.opening p).arena.scope? j).isSome →
      j = m.arena.nextSlot p ∨ (m.arena.scope? j).isSome := by
    intro j hj
    by_cases heq : j = m.arena.nextSlot p
    · exact .inl heq
    · have hj : ((m.arena.pushed p).scope? j).isSome := hj
      rw [hscope, if_neg heq] at hj
      exact .inr hj
  refine ⟨h.rooted.pushed (h.isSome hp), h.table, ?_, ?_, ?_, h.closures_inj, ?_, h.output, h.depth,
    h.calls⟩
  · intro j s hs
    have hs : (m.arena.pushed p).scope? j = some s := hs
    show ∃ t, (n.arena.pushed (σ p)).scope? _ = some t ∧ _
    rw [hscope] at hs
    split at hs
    -- the new scope stands in the counterpart of the same scope
    case isTrue hj =>
      cases hs
      rw [hj, renumber_self, hscope', if_pos rfl]
      refine ⟨_, rfl, rfl, ?_⟩
      show some (σ p) = some (renumber _ _ _ p)
      rw [(hold p hp).1]
    -- a scope of before is as it was on both sides
    case isFalse hj =>
      obtain ⟨t, ht, hbindings, hparent⟩ := h.scopes j s hs
      obtain ⟨heq, hne⟩ := hold j (by rw [hs]; rfl)
      rw [heq, hscope', if_neg hne]
      refine ⟨t, ht, hbindings, hparent.trans ?_⟩
      cases hq : s.parent with
      | none => rfl
      | some q => exact congrArg some (hold q (hm.arena.toRooted.parent_isSome hs hq)).1.symm
  · -- closures stand in scopes of before
    intro id c hc
    obtain ⟨s, hs, -⟩ := Arena.isCaptured_eq_true.mp (hm.scopes id c hc)
    rw [(hold c.scope (by rw [hs]; rfl)).1]
    exact h.closures id c hc
  · intro j k hj hk
    -- no scope of before has the number of the new one
    refine renumber_inj h.scopes_inj ?_ (fun j hj => (hold j hj).2) j k (hcases j hj) (hcases k hk)
    rw [hempty]
    simp
  · rw [renumber_of_ne (Ne.symm (hm.arena.nextSlot_ne_global p))]
    exact h.global

/-! ## Defining a function -/

/-- **Defining a function** extends the numbering of the closures. -/
theorem defined (h : Mirrors σ φ m n) (hm : m.Valid stack held) (c : Closure α) :
    Mirrors σ (renumber φ (m.nextClosure c) (n.nextClosure { c with scope := σ c.scope }))
      (m.defined c) (n.defined { c with scope := σ c.scope }) := by
  obtain ⟨hempty, hclosure⟩ := hm.closure?_defined c
  obtain ⟨hempty', hclosure'⟩ : n.closure? (n.nextClosure { c with scope := σ c.scope }) = none ∧
      ∀ id, (n.defined { c with scope := σ c.scope }).closure? id =
        if id = n.nextClosure { c with scope := σ c.scope } then some { c with scope := σ c.scope }
        else n.closure? id :=
    ⟨(h.table.fill _).1, (h.table.fill _).2.1⟩
  have hold : ∀ id, (m.closure? id).isSome →
      renumber φ (m.nextClosure c) (n.nextClosure { c with scope := σ c.scope }) id = φ id ∧
        φ id ≠ n.nextClosure { c with scope := σ c.scope } := by
    refine fun id hid => renumber_old hempty hempty' (fun id hid => ?_) hid
    obtain ⟨d, hd⟩ := Option.isSome_iff_exists.mp hid
    rw [h.closures id d hd]
    rfl
  have hcases : ∀ id, ((m.defined c).closure? id).isSome →
      id = m.nextClosure c ∨ (m.closure? id).isSome := by
    intro id hid
    rw [hclosure] at hid
    split at hid
    case isTrue heq => exact .inl heq
    case isFalse => exact .inr hid
  have hmarks : ∀ j, ∃ f : Bool → Bool, (m.defined c).arena.scope? j =
      (m.arena.scope? j).map fun s => { s with captured := f s.captured } :=
    m.arena.scope?_capture_map c.scope
  refine ⟨h.rooted.capture (σ c.scope), (h.table.fill _).2.2, ?_, ?_, ?_, ?_, h.global, h.output,
    h.depth, h.calls⟩
  · intro j s hs
    obtain ⟨f, hf⟩ := hmarks j
    obtain ⟨g, hg⟩ := n.arena.scope?_capture_map (σ c.scope) (σ j)
    rw [hf] at hs
    obtain ⟨u, hu, rfl⟩ := Option.map_eq_some_iff.mp hs
    obtain ⟨t, ht, hbindings, hparent⟩ := h.scopes j u hu
    refine ⟨_, hg.trans (Option.map_eq_some_iff.mpr ⟨t, ht, rfl⟩), ?_, hparent⟩
    -- what is bound names closures from before, and those keep their numbers
    refine hbindings.trans (Bindings.rename_congr fun v hv id hid => ?_)
    exact (hold id (hm.bound j u hu v hv id hid)).1.symm
  · intro id d hd
    rw [hclosure] at hd
    split at hd
    case isTrue heq =>
      cases hd
      rw [heq, renumber_self, hclosure', if_pos rfl]
    case isFalse heq =>
      obtain ⟨hsame, hne⟩ := hold id (by rw [hd]; rfl)
      rw [hsame, hclosure', if_neg hne]
      exact h.closures id d hd
  · intro j k hj hk
    have hsome : ∀ j, ((m.defined c).arena.scope? j).isSome → (m.arena.scope? j).isSome := by
      intro j hj
      obtain ⟨f, hf⟩ := hmarks j
      rwa [hf, Option.isSome_map] at hj
    exact h.scopes_inj j k (hsome j hj) (hsome k hk)
  · intro j k hj hk
    refine renumber_inj h.closures_inj ?_ (fun id hid => (hold id hid).2) j k (hcases j hj)
      (hcases k hk)
    rw [hempty]
    simp

/-! ## Giving away -/

/-- The first machine may give away scopes and closures. -/
theorem shrink (h : Mirrors σ φ m n) {l : Machine α}
    (hscopes : ∀ j s, l.arena.scope? j = some s → ∃ u, m.arena.scope? j = some u ∧
      s.bindings = u.bindings ∧ s.parent = u.parent)
    (hclosures : ∀ id c, l.closure? id = some c → m.closure? id = some c)
    (houtput : l.output = m.output) (hdepth : l.depth = m.depth) (hcalls : l.calls = m.calls) :
    Mirrors σ φ l n := by
  -- what is left was there before
  have hsome : ∀ j, (l.arena.scope? j).isSome → (m.arena.scope? j).isSome := by
    intro j hj
    obtain ⟨s, hs⟩ := Option.isSome_iff_exists.mp hj
    obtain ⟨u, hu, -⟩ := hscopes j s hs
    rw [hu]
    rfl
  have hnamed : ∀ id, (l.closure? id).isSome → (m.closure? id).isSome := by
    intro id hid
    obtain ⟨c, hc⟩ := Option.isSome_iff_exists.mp hid
    rw [hclosures id c hc]
    rfl
  refine ⟨h.rooted, h.table, ?_, fun id c hc => h.closures id c (hclosures id c hc), ?_, ?_,
    h.global, h.output.trans houtput.symm, h.depth.trans hdepth.symm, h.calls.trans hcalls.symm⟩
  · intro j s hs
    obtain ⟨u, hu, hbindings, hparent⟩ := hscopes j s hs
    rw [hbindings, hparent]
    exact h.scopes j u hu
  · exact fun j k hj hk => h.scopes_inj j k (hsome j hj) (hsome k hk)
  · exact fun j k hj hk => h.closures_inj j k (hnamed j hj) (hnamed k hk)

/-- In the second machine a scope may stop being active. -/
theorem deactivate (h : Mirrors σ φ m n) (k : ScopeId) :
    Mirrors σ φ m { n with arena := n.arena.deactivate k } := by
  -- a scope that stops being active keeps its names and its link
  have hscope : ∀ j t, n.arena.scope? j = some t → ∃ u, (n.arena.deactivate k).scope? j = some u ∧
      u.bindings = t.bindings ∧ u.parent = t.parent := by
    intro j t ht
    unfold Arena.deactivate
    split
    · exact ⟨t, ht, rfl, rfl⟩
    · rw [Arena.scope?_update, ht]
      split
      · exact ⟨_, rfl, rfl, rfl⟩
      · exact ⟨t, rfl, rfl, rfl⟩
  refine ⟨h.rooted.deactivate k, h.table, ?_, h.closures, h.scopes_inj, h.closures_inj, h.global,
    h.output, h.depth, h.calls⟩
  intro j s hs
  obtain ⟨t, ht, hbindings, hparent⟩ := h.scopes j s hs
  obtain ⟨u, hu, hub, hup⟩ := hscope (σ j) t ht
  exact ⟨u, hu, hub.trans hbindings, hup.trans hparent⟩

end Mirrors

end Machine

end Scriptlet
