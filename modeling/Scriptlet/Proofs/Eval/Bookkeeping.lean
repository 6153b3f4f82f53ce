/-
  Bookkeeping: what a run counts is back to where it was on every way out.

  1. **What is counted** — the depth, the calls and the active scopes (`Machine.Restored` compares
     them), and how much more of each there may be (`Machine.Room`).
  2. **Arenas** (`Arena.Tidy`) — active scopes can be counted on as soon as the list of free slots
     names empty slots only: then a scope that is opened takes no place of an active one, and a
     collection takes none away.  Nothing needs to be known about parents, bindings or closures.
  3. **The crux** (`Watched.balanced`) — whatever is evaluated restores what is counted, and has
     room for it all along if there was room at its beginning.  A scope is opened one level deeper
     only, so the level entered makes room for it.
-/
import Scriptlet.Proofs.Eval.Watch

namespace Scriptlet

variable {α β γ : Type}

/-! ## Arenas -/

namespace Arena

variable {a b : Arena} {i j : ScopeId}

/-- A scope is active just if its slot says so. -/
theorem mem_activeScopes_iff :
    i ∈ a.activeScopes ↔ (a.scope? i).map Scope.active = some true := by
  unfold activeScopes
  rw [List.mem_filter, List.mem_range]
  cases hs : a.scope? i with
  | none => simp
  | some s =>
    have hlt : i < a.slots.size := Slots.lt_size hs
    simp [hlt]

/-- Every slot is counted once. -/
theorem nodup_activeScopes (a : Arena) : a.activeScopes.Nodup :=
  List.nodup_range.sublist List.filter_sublist

/-- Active scopes are listed in order, so two lists with the same members are the same. -/
theorem activeScopes_ext (h : ∀ i, i ∈ a.activeScopes ↔ i ∈ b.activeScopes) :
    a.activeScopes = b.activeScopes := by
  have hsorted : ∀ c : Arena, c.activeScopes.Pairwise (· < ·) :=
    fun c => List.pairwise_lt_range.sublist List.filter_sublist
  refine List.Perm.eq_of_pairwise (fun i j _ _ hij hji => ?_) (hsorted a) (hsorted b)
    ((List.perm_ext_iff_of_nodup a.nodup_activeScopes b.nodup_activeScopes).mpr h)
  exact absurd hij (Nat.lt_asymm hji)

/-- The free list is right, and the global scope is active. -/
structure Tidy (a : Arena) : Prop where
  free : Slots.FreeList a.slots a.free
  global : global ∈ a.activeScopes

/-- A change of scopes that leaves their activity. -/
theorem Tidy.update (h : a.Tidy) {f : Scope → Scope} (hf : ∀ s, (f s).active = s.active)
    (i : ScopeId) : (a.update i f).Tidy ∧ (a.update i f).activeScopes = a.activeScopes := by
  have hactive : (a.update i f).activeScopes = a.activeScopes := by
    refine activeScopes_ext fun j => ?_
    rw [mem_activeScopes_iff, mem_activeScopes_iff, scope?_update]
    split
    · have hcomp : Scope.active ∘ f = Scope.active := funext hf
      rw [Option.map_map, hcomp]
    · rfl
  exact ⟨⟨h.free.modify f, hactive ▸ h.global⟩, hactive⟩

/-- A scope that is captured stays active or not as it was. -/
theorem Tidy.capture (h : a.Tidy) (i : ScopeId) :
    (a.capture i).Tidy ∧ (a.capture i).activeScopes = a.activeScopes := by
  unfold Arena.capture
  generalize (a.chain i).takeWhile _ = ids
  induction ids generalizing a with
  | nil => exact ⟨h, rfl⟩
  | cons j ids ih =>
    obtain ⟨htidy, hactive⟩ := h.update (f := fun s => { s with captured := true }) (fun _ => rfl) j
    obtain ⟨htidy', hactive'⟩ := ih htidy
    exact ⟨htidy', hactive'.trans hactive⟩

/-- Opening a scope. -/
theorem Tidy.pushed (h : a.Tidy) (p : ScopeId) : (a.pushed p).Tidy ∧
    a.nextSlot p ≠ Arena.global ∧
    (a.pushed p).activeScopes.Perm (a.nextSlot p :: a.activeScopes) := by
  obtain ⟨hempty, hscope, hfree⟩ := h.free.fill (opened p)
  -- the slot was empty, so it held no active scope
  have hnot : a.nextSlot p ∉ a.activeScopes := by
    rw [mem_activeScopes_iff]
    show ¬ (Slots.at? a.slots (a.nextSlot p)).map Scope.active = some true
    rw [nextSlot, hempty]
    simp
  -- apart from the new scope the slots hold what they held
  have hmem : ∀ j, j ∈ (a.pushed p).activeScopes ↔ j ∈ a.nextSlot p :: a.activeScopes := by
    intro j
    have hj : (a.pushed p).scope? j = if j = a.nextSlot p then some (opened p) else a.scope? j :=
      hscope j
    rw [mem_activeScopes_iff, hj, List.mem_cons, mem_activeScopes_iff]
    split
    · next heq => exact ⟨fun _ => .inl heq, fun _ => rfl⟩
    · next hne => exact ⟨.inr, fun h => h.resolve_left hne⟩
  refine ⟨⟨hfree, (hmem _).mpr (List.mem_cons_of_mem _ h.global)⟩, ?_, ?_⟩
  · -- the global scope is active, and the slot was not
    intro heq
    exact hnot (heq ▸ h.global)
  · exact (List.perm_ext_iff_of_nodup (nodup_activeScopes _)
      (List.nodup_cons.mpr ⟨hnot, nodup_activeScopes a⟩)).mpr hmem

/-- `b` is tidy, and of the active scopes of `a` all but `i` are active in it. -/
def Ended (a : Arena) (i : ScopeId) (b : Arena) : Prop :=
  b.Tidy ∧ ∀ j, j ∈ b.activeScopes ↔ j ≠ i ∧ j ∈ a.activeScopes

/-- A scope that is only marked as ended is taken from the active ones. -/
theorem Tidy.deactivate (h : a.Tidy) (hi : i ≠ Arena.global) : a.Ended i (a.deactivate i) := by
  have hmem : ∀ j, j ∈ (a.deactivate i).activeScopes ↔ j ≠ i ∧ j ∈ a.activeScopes := by
    intro j
    rw [mem_activeScopes_iff, mem_activeScopes_iff, Arena.deactivate, if_neg hi, scope?_update]
    split
    · next heq =>
      refine ⟨fun hj => ?_, fun hj => absurd heq hj.1⟩
      cases hs : a.scope? j with
      | none => rw [hs] at hj; exact nomatch hj
      | some s => rw [hs] at hj; exact nomatch hj
    · next hne => exact ⟨fun hj => ⟨hne, hj⟩, fun hj => hj.2⟩
  refine ⟨⟨?_, (hmem _).mpr ⟨Ne.symm hi, h.global⟩⟩, hmem⟩
  rw [Arena.deactivate, if_neg hi]
  exact h.free.modify _

/-- So is one whose slot is emptied. -/
theorem Tidy.vacate (h : a.Tidy) (hi : i ≠ Arena.global) (hactive : i ∈ a.activeScopes) :
    a.Ended i (a.vacate i) := by
  have hmem : ∀ j, j ∈ (a.vacate i).activeScopes ↔ j ≠ i ∧ j ∈ a.activeScopes := by
    intro j
    rw [mem_activeScopes_iff, mem_activeScopes_iff, scope?_vacate]
    split
    · next heq => exact ⟨(nomatch ·), fun hj => absurd heq hj.1⟩
    · next hne => exact ⟨fun hj => ⟨hne, hj⟩, fun hj => hj.2⟩
  obtain ⟨s, hs, -⟩ := Option.map_eq_some_iff.mp (mem_activeScopes_iff.mp hactive)
  exact ⟨⟨h.free.clear hs, (hmem _).mpr ⟨Ne.symm hi, h.global⟩⟩, hmem⟩

/-- A scope is emptied at once if nothing is in it, and else marked. -/
theorem Tidy.release (h : a.Tidy) (hi : i ≠ Arena.global) (hactive : i ∈ a.activeScopes) :
    a.Ended i (a.release i) := by
  unfold Arena.release
  rw [if_neg hi]
  split
  · have hended := h.deactivate hi
    rw [Arena.deactivate, if_neg hi] at hended
    exact ⟨⟨hended.1.free, hended.1.global⟩, hended.2⟩
  · exact h.vacate hi hactive

/-- A collection takes no active scope. -/
theorem Tidy.collect (h : a.Tidy) (roots : List ScopeId) (capturedBy : Value → Option ScopeId) :
    (a.collect roots capturedBy).2.Tidy ∧
      (a.collect roots capturedBy).2.activeScopes = a.activeScopes := by
  have hactive : (a.collect roots capturedBy).2.activeScopes = a.activeScopes := by
    refine activeScopes_ext fun j => ?_
    rw [mem_activeScopes_iff, mem_activeScopes_iff, scope?_collect]
    split
    · -- garbage was not active before
      next hj =>
      obtain ⟨s, hs, hs', -⟩ := mem_garbage.mp hj
      rw [hs, Option.map_some, hs']
      exact ⟨(nomatch ·), (nomatch ·)⟩
    · rfl
  refine ⟨⟨?_, hactive ▸ h.global⟩, hactive⟩
  -- only slots in use are emptied, so the free list stays right
  have hused : ∀ j ∈ a.garbage roots capturedBy, (Slots.at? a.slots j).isSome := by
    intro j hj
    obtain ⟨s, hs, -⟩ := mem_garbage.mp hj
    exact Option.isSome_iff_exists.mpr ⟨s, hs⟩
  show Slots.FreeList (a.sweep (a.garbage roots capturedBy)).slots
    (a.sweep (a.garbage roots capturedBy)).free
  rw [sweep_eq]
  exact h.free.clearAll nodup_garbage hused

end Arena

/-! ## Machines -/

namespace Machine

/-- What is counted is in `m'` as it was in `m`. -/
structure Restored (m m' : Machine α) : Prop where
  depth : m'.depth = m.depth
  calls : m'.calls = m.calls
  active : m'.arena.activeScopes = m.arena.activeScopes

/-- The number of active scopes, the global one apart. -/
def openScopes (m : Machine α) : Nat :=
  (m.arena.activeScopes.filter (· ≠ Arena.global)).length

/-- There is room for so many more scopes and calls: every scope that is open needs a level of its
    own. -/
structure Room (limits : Limits) (scopes calls : Nat) (m : Machine α) : Prop where
  depth : m.depth ≤ limits.depth
  calls : m.calls + calls ≤ limits.calls
  scopes : m.openScopes + scopes ≤ m.depth

variable {m m' m'' : Machine α} {limits : Limits} {scopes scopes' calls calls' : Nat} {i : ScopeId}

theorem Restored.refl (m : Machine α) : Restored m m := ⟨rfl, rfl, rfl⟩

/-- What is back twice is back. -/
theorem Restored.trans (h : Restored m m') (h' : Restored m' m'') : Restored m m'' :=
  ⟨h'.depth.trans h.depth, h'.calls.trans h.calls, h'.active.trans h.active⟩

/-- So many scopes are open as before. -/
theorem Restored.openScopes (h : Restored m m') : m'.openScopes = m.openScopes := by
  unfold Machine.openScopes
  rw [h.active]

/-- What is back has the room it had. -/
theorem Restored.room (h : Restored m m') (hroom : m.Room limits scopes calls) :
    m'.Room limits scopes calls := by
  refine ⟨?_, ?_, ?_⟩
  · rw [h.depth]
    exact hroom.depth
  · rw [h.calls]
    exact hroom.calls
  · rw [h.openScopes, h.depth]
    exact hroom.scopes

/-- Room for more is room for less. -/
theorem Room.weaken (h : m.Room limits scopes calls) (hscopes : scopes' ≤ scopes)
    (hcalls : calls' ≤ calls) : m.Room limits scopes' calls' := by
  obtain ⟨hd, hc, hs⟩ := h
  exact ⟨hd, by omega, by omega⟩

/-! Changes that leave what is counted. -/

/-- The change leaves what is counted, and the arena tidy. -/
def Neutral (f : Machine α → Machine α) : Prop :=
  ∀ m, m.arena.Tidy → (f m).arena.Tidy ∧ Restored m (f m)

/-- Bindings are not counted. -/
theorem declare_neutral (i : ScopeId) (x : String) (v : Value) :
    Neutral fun m : Machine α => m.declare i x v := by
  intro m htidy
  obtain ⟨htidy', hactive⟩ :=
    htidy.update (f := fun s => { s with bindings := s.bindings.put x v }) (fun _ => rfl) i
  exact ⟨htidy', rfl, rfl, hactive⟩

theorem assign_neutral (i : ScopeId) (x : String) (v : Value) :
    Neutral fun m : Machine α => m.assign i x v :=
  fun m htidy => declare_neutral ((m.arena.definer? i x).getD i) x v m htidy

theorem printSegment_neutral (segment : String) :
    Neutral fun m : Machine α => m.printSegment segment :=
  fun _ htidy => ⟨htidy, rfl, rfl, rfl⟩

/-- Arguments are bindings. -/
theorem bindParams_neutral (scope : ScopeId) (params : List String) (values : List Value) :
    Neutral (Eval.bindParams scope params values : Machine α → Machine α) := by
  intro m htidy
  refine Eval.bindParams_keeps (P := fun k => k.arena.Tidy ∧ Restored m k) ?_ params values
    ⟨htidy, .refl m⟩
  rintro k x v ⟨htidy, hrestored⟩
  obtain ⟨htidy', hdeclared⟩ := declare_neutral scope x v k htidy
  exact ⟨htidy', hrestored.trans hdeclared⟩

/-- Closures are not counted, only captured scopes marked. -/
theorem define_neutral (c : Closure α) (f : String) : Neutral fun m : Machine α =>
    (m.define c).2.declare c.scope f (.function (m.define c).1 f) := by
  intro m htidy
  obtain ⟨htidy', hactive⟩ := htidy.capture c.scope
  have hdefined : Restored m (m.defined c) := ⟨rfl, rfl, hactive⟩
  obtain ⟨htidy'', hdeclared⟩ :=
    declare_neutral c.scope f (.function (m.nextClosure c) f) (m.defined c) htidy'
  dsimp only
  rw [define_eq]
  exact ⟨htidy'', hdefined.trans hdeclared⟩

/-! Opening and ending scopes. -/

/-- A scope that is opened takes the room of one. -/
theorem room_opening (htidy : m.arena.Tidy) (p : ScopeId) (h : m.Room limits (scopes + 1) calls) :
    (m.opening p).Room limits scopes calls := by
  obtain ⟨-, hglobal, hperm⟩ := htidy.pushed p
  have hopen : (m.opening p).openScopes = m.openScopes + 1 := by
    show ((m.arena.pushed p).activeScopes.filter _).length = _
    rw [(hperm.filter _).length_eq, List.filter_cons_of_pos (by simpa using hglobal)]
    rfl
  have hroom : (m.opening p).openScopes + scopes ≤ m.depth := by
    have := h.scopes
    omega
  exact ⟨h.depth, h.calls, hroom⟩

/-- However a scope ends, by itself or in a collection, it alone is no longer active. -/
theorem endScope_ended (settings : Settings) (held : List Value) (htidy : m.arena.Tidy)
    (hi : i ≠ Arena.global) (hactive : i ∈ m.arena.activeScopes) :
    m.arena.Ended i (m.endScope settings held i).arena ∧
      (m.endScope settings held i).depth = m.depth ∧
      (m.endScope settings held i).calls = m.calls := by
  unfold endScope
  -- scopes are ended by releasing them, and perhaps a collection follows
  split
  · have hrelease := htidy.release hi hactive
    dsimp only
    split
    · rw [collect_eq]
      obtain ⟨htidy', hsame⟩ := hrelease.1.collect _ _
      refine ⟨⟨htidy', fun j => ?_⟩, rfl, rfl⟩
      rw [← hrelease.2]
      exact hsame ▸ Iff.rfl
    · exact ⟨hrelease, rfl, rfl⟩
  · -- without reclaiming the scope is only put out of use
    exact ⟨htidy.deactivate hi, rfl, rfl⟩

/-- A scope that is opened and ended leaves no trace in the active scopes. -/
theorem endScope_active (settings : Settings) (held : List Value) (htidy : m.arena.Tidy)
    (p : ScopeId) (htidy' : m'.arena.Tidy)
    (h : m'.arena.activeScopes = (m.opening p).arena.activeScopes) :
    (m'.endScope settings held (m.arena.nextSlot p)).arena.Tidy ∧
      (m'.endScope settings held (m.arena.nextSlot p)).arena.activeScopes
        = m.arena.activeScopes := by
  obtain ⟨-, hglobal, hperm⟩ := htidy.pushed p
  -- the active scopes before the end: the new one, and those from before it was opened
  have hmem : ∀ j, j ∈ m'.arena.activeScopes ↔
      j = m.arena.nextSlot p ∨ j ∈ m.arena.activeScopes := by
    intro j
    rw [h]
    exact hperm.mem_iff.trans List.mem_cons
  obtain ⟨⟨htidy'', hended⟩, -⟩ :=
    endScope_ended settings held htidy' hglobal ((hmem _).mpr (.inl rfl))
  have hnot : m.arena.nextSlot p ∉ m.arena.activeScopes :=
    (List.nodup_cons.mp (hperm.nodup_iff.mp (Arena.nodup_activeScopes _))).1
  refine ⟨htidy'', Arena.activeScopes_ext fun j => ?_⟩
  rw [hended, hmem]
  constructor
  · -- what is left was there before
    exact fun ⟨hne, hj⟩ => hj.resolve_left hne
  · -- and what was there before is another scope
    exact fun hj => ⟨fun heq => hnot (heq ▸ hj), .inr hj⟩

/-- **A scope that is opened and ended** leaves no trace in what is counted. -/
theorem restored_endScope (settings : Settings) (held : List Value) (htidy : m.arena.Tidy)
    (p : ScopeId) (htidy' : m'.arena.Tidy) (h : Restored (m.opening p) m') :
    (m'.endScope settings held (m.arena.nextSlot p)).arena.Tidy ∧
      Restored m (m'.endScope settings held (m.arena.nextSlot p)) := by
  obtain ⟨-, hglobal, hperm⟩ := htidy.pushed p
  have hopen : m.arena.nextSlot p ∈ m'.arena.activeScopes :=
    h.active ▸ hperm.mem_iff.mpr (List.mem_cons_self ..)
  obtain ⟨-, hdepth, hcalls⟩ := endScope_ended settings held htidy' hglobal hopen
  obtain ⟨htidy'', hactive⟩ := endScope_active settings held htidy p htidy' h.active
  exact ⟨htidy'', hdepth.trans h.depth, hcalls.trans h.calls, hactive⟩

end Machine

/-! ## Rules -/

/-- Every state passed is tidy and within the limits. -/
def Watch.Sound (limits : Limits) (w : Watch α) : Prop :=
  ∀ m ∈ w.passed, m.arena.Tidy ∧ m.Room limits 0 0

/-- From `w` to `w'` what is counted is restored, and all that was passed on the way is within the
    limits if at the beginning there was room for so many scopes and calls. -/
structure Watch.Restores (limits : Limits) (scopes calls : Nat) (w w' : Watch α) : Prop where
  tidy : w'.machine.arena.Tidy
  restored : Machine.Restored w.machine w'.machine
  sound : w.machine.Room limits scopes calls → w.Sound limits → w'.Sound limits

namespace Watch

variable {limits : Limits} {scopes scopes' calls calls' : Nat} {w w' w'' : Watch α}

theorem Restores.refl (h : w.machine.arena.Tidy) : w.Restores limits scopes calls w :=
  ⟨h, .refl _, fun _ h => h⟩

/-- A change that leaves what is counted. -/
theorem Restores.change {f : Machine α → Machine α} (hf : Machine.Neutral f)
    (h : w.machine.arena.Tidy) : w.Restores limits scopes calls (w.change f) := by
  obtain ⟨htidy, hrestored⟩ := hf w.machine h
  refine ⟨htidy, hrestored, fun hroom hsound m hm => ?_⟩
  rcases List.mem_cons.mp hm with rfl | hm
  · exact ⟨htidy, (hrestored.room hroom).weaken (Nat.zero_le _) (Nat.zero_le _)⟩
  · exact hsound m hm

/-- One restoring part after another restores. -/
theorem Restores.trans (h : w.Restores limits scopes calls w')
    (h' : w'.Restores limits scopes calls w'') : w.Restores limits scopes calls w'' :=
  ⟨h'.tidy, h.restored.trans h'.restored,
    fun hroom hsound => h'.sound (h.restored.room hroom) (h.sound hroom hsound)⟩

/-- **Between two changes.**  The first may use up room; the second restores what was counted before
    the first. -/
theorem Restores.between {before after : Machine α → Machine α}
    (hbefore : (before w.machine).arena.Tidy)
    (hroom : w.machine.Room limits scopes calls → (before w.machine).Room limits scopes' calls')
    (h : (w.change before).Restores limits scopes' calls' w')
    (hafter : (after w'.machine).arena.Tidy ∧ Machine.Restored w.machine (after w'.machine)) :
    w.Restores limits scopes calls (w'.change after) := by
  refine ⟨hafter.1, hafter.2, fun hstart hsound => ?_⟩
  -- inside, the first change is the state to start from
  have hinner : w'.Sound limits := by
    refine h.sound (hroom hstart) fun m hm => ?_
    rcases List.mem_cons.mp hm with rfl | hm
    · exact ⟨hbefore, (hroom hstart).weaken (Nat.zero_le _) (Nat.zero_le _)⟩
    · exact hsound m hm
  intro m hm
  rcases List.mem_cons.mp hm with rfl | hm
  · -- the state after the second change
    exact ⟨hafter.1, hafter.2.room (hstart.weaken (Nat.zero_le _) (Nat.zero_le _))⟩
  · exact hinner m hm

end Watch

namespace Watched

open Eval (arguments texts followed sequence optional operation)

variable {limits : Limits} {settings : Settings} {scopes calls : Nat} {p : Watched α β}
  {f : β → Watched α γ}

/-- The computation restores what is counted, and stays within the limits if there is room for so
    many scopes and calls. -/
def Balanced (limits : Limits) (scopes calls : Nat) (p : Watched α β) : Prop :=
  ∀ w : Watch α, w.machine.arena.Tidy → w.Restores limits scopes calls (left (p w))

/-- What needs no room of its own may have some. -/
theorem Balanced.weaken (h : Balanced limits 0 0 p) : Balanced limits scopes calls p := by
  intro w htidy
  obtain ⟨htidy', hrestored, hsound⟩ := h w htidy
  exact ⟨htidy', hrestored, fun hroom => hsound (hroom.weaken (Nat.zero_le _) (Nat.zero_le _))⟩

/-- A computation that leaves the machine, and passes no other. -/
theorem balanced_of_same
    (h : ∀ w, (left (p w)).machine = w.machine ∧ (left (p w)).passed = w.passed) :
    Balanced limits scopes calls p := by
  intro w htidy
  obtain ⟨hmachine, hpassed⟩ := h w
  refine ⟨hmachine ▸ htidy, hmachine ▸ .refl _, fun _ hsound => ?_⟩
  unfold Watch.Sound
  rw [hpassed]
  exact hsound

theorem pure_balanced (b : β) : Balanced limits scopes calls (pure b : Watched α β) :=
  balanced_of_same fun _ => ⟨rfl, rfl⟩

theorem throw_balanced (e : Halt α) : Balanced limits scopes calls (throw e : Watched α β) :=
  balanced_of_same fun _ => ⟨rfl, rfl⟩

theorem note_balanced (j : Jump α) : Balanced limits scopes calls (note j) :=
  balanced_of_same fun _ => ⟨rfl, rfl⟩

/-- A landing is a note, or nothing. -/
theorem land_balanced (frames : List (Frame α)) (flow : Flow) :
    Balanced limits scopes calls (land frames flow) := by
  cases flow with
  | normal => exact pure_balanced _
  | breaking | continuing | returning v => exact note_balanced _

/-- What leaves the machine as it is restores it. -/
theorem quiet_balanced (p : Eval α β) : Balanced limits scopes calls (quiet p) := by
  refine balanced_of_same fun w => ?_
  unfold quiet
  cases p w.machine with
  | ok b m => exact ⟨rfl, rfl⟩
  | error e m => exact ⟨rfl, rfl⟩

/-- A change that leaves what is counted. -/
theorem change_balanced {f : Machine α → Machine α} (hf : Machine.Neutral f) :
    Balanced limits scopes calls (change f) :=
  fun _ htidy => .change hf htidy

/-- A computation that begins with a look at the machine. -/
theorem balanced_of_machine {f : Machine α → Watched α β} (h : ∀ w : Watch α,
    w.machine.arena.Tidy → w.Restores limits scopes calls (left (f w.machine w))) :
    Balanced limits scopes calls (machine >>= f) := h

/-- The second part starts with as much room as the first. -/
theorem Balanced.bind (h : Balanced limits scopes calls p)
    (hnext : ∀ b, Balanced limits scopes calls (f b)) : Balanced limits scopes calls (p >>= f) := by
  intro w htidy
  have hfirst := h w htidy
  show w.Restores limits scopes calls (left (EStateM.bind p f w))
  unfold EStateM.bind
  cases hp : p w with
  | ok b w' =>
    rw [hp] at hfirst
    exact hfirst.trans (hnext b w' hfirst.tidy)
  | error e w' =>
    rw [hp] at hfirst
    exact hfirst

/-- **A level deeper** there is room for one more scope. -/
theorem Balanced.descend (h : Balanced settings.limits 1 calls p) (site : α) :
    Balanced settings.limits 0 calls (descend settings site p) := by
  intro w htidy
  show w.Restores settings.limits 0 calls (left ((if w.machine.depth < settings.limits.depth then
    between _ _ p else quiet _ : Watched α β) w))
  split
  · next hdepth =>
    have hinner := h (w.change fun m => { m with depth := m.depth + 1 }) htidy
    show w.Restores settings.limits 0 calls (left (always _ p (w.change _)))
    rw [left_always]
    refine Watch.Restores.between htidy (fun hroom => ?_) hinner ⟨hinner.tidy, ?_⟩
    · exact ⟨hdepth, hroom.calls, Nat.succ_le_succ hroom.scopes⟩
    · have hback := hinner.restored
      exact ⟨congrArg (· - 1) hback.depth, hback.calls, hback.active⟩
  · exact quiet_balanced _ w htidy

/-- The call is counted, and no longer counted on every way out. -/
theorem Balanced.inCall (h : Balanced limits scopes 0 p) : Balanced limits scopes 1 (inCall p) := by
  intro w htidy
  have hinner := h (w.change fun m => { m with calls := m.calls + 1 }) htidy
  show w.Restores limits scopes 1 (left (always _ p (w.change _)))
  rw [left_always]
  refine Watch.Restores.between htidy (fun hroom => ?_) hinner ⟨hinner.tidy, ?_⟩
  · exact ⟨hroom.depth, hroom.calls, hroom.scopes⟩
  · have hback := hinner.restored
    exact ⟨hback.depth, congrArg (· - 1) hback.calls, hback.active⟩

/-- **A scope** takes the room that the level around it made. -/
theorem Balanced.inScope {p : ScopeId → Watched α β} (h : ∀ i, Balanced limits 0 calls (p i))
    (settings : Settings) (held : List Value) (parent : ScopeId) (needed : β → List Value) :
    Balanced limits 1 calls (inScope settings held parent needed p) := by
  intro w htidy
  have hinner := h (w.machine.arena.nextSlot parent) (w.change (·.opening parent))
    (htidy.pushed parent).1
  obtain ⟨values, hleft⟩ := left_inScope settings held parent needed p w
  rw [hleft]
  exact Watch.Restores.between (htidy.pushed parent).1 (Machine.room_opening htidy parent)
    ⟨hinner.tidy, hinner.restored, hinner.sound⟩
    (Machine.restored_endScope settings values htidy parent hinner.tidy hinner.restored)

/-- Where a computation returns plays no part. -/
theorem Balanced.returning (h : Balanced limits scopes calls p) (needed : β → List Value)
    (held : List Value) (scope : ScopeId) :
    Balanced limits scopes calls (returning needed held scope p) := by
  intro w htidy
  obtain ⟨htidy', hrestored, hsound⟩ := h w htidy
  unfold Watched.returning
  cases hp : p w with
  | ok b w' =>
    rw [hp] at htidy' hrestored hsound
    exact ⟨htidy', hrestored, hsound⟩
  | error e w' =>
    rw [hp] at htidy' hrestored hsound
    exact ⟨htidy', hrestored, hsound⟩

/-! ## Lists -/

/-- Argument by argument. -/
theorem arguments_balanced {eval : List Value → Expr α → Watched α Value}
    (h : ∀ held e, Balanced limits scopes calls (eval held e)) (es : List (Expr α))
    (held : List Value) : Balanced limits scopes calls (arguments eval held es) := by
  induction es generalizing held with
  | nil => exact pure_balanced _
  | cons e rest ih =>
    exact (h held e).bind fun v => (ih (v :: held)).bind fun _ => pure_balanced _

theorem texts_balanced {eval : Expr α → Watched α Value}
    (h : ∀ e, Balanced limits scopes calls (eval e)) (es : List (Expr α)) :
    Balanced limits scopes calls (texts eval es) := by
  induction es with
  | nil => exact pure_balanced _
  | cons e rest ih => exact (h e).bind fun v => ih.bind fun _ => pure_balanced _

/-- Statement by statement, up to the first that does not end normally. -/
theorem sequence_balanced {exec : Stmt α → Watched α Flow}
    (h : ∀ s, Balanced limits scopes calls (exec s)) (body : List (Stmt α)) :
    Balanced limits scopes calls (sequence exec body) := by
  induction body with
  | nil => exact pure_balanced _
  | cons s rest ih =>
    refine (h s).bind fun flow => ?_
    cases flow with
    | normal => exact ih
    | breaking | continuing | returning v => exact pure_balanced _

theorem optional_balanced {eval : Expr α → Watched α Value}
    (h : ∀ e, Balanced limits scopes calls (eval e)) (e : Option (Expr α)) :
    Balanced limits scopes calls (optional eval e) := by
  cases e with
  | none => exact pure_balanced _
  | some e => exact h e

/-! ## Expressions, calls and statements -/

/-- Everything is balanced under a bound on steps.  Calls and turns of loops open a scope in the
    level of the expression or statement they belong to. -/
structure AllBalanced (α : Type) (settings : Settings) (fuel : Nat) : Prop where
  eval : ∀ held scope frames (e : Expr α),
    Balanced settings.limits 0 0 (eval settings fuel held scope frames e)
  call : ∀ held frames (site : α) f values,
    Balanced settings.limits 1 0 (call settings fuel held frames site f values)
  exec : ∀ held scope frames (s : Stmt α),
    Balanced settings.limits 0 0 (exec settings fuel held scope frames s)
  turns : ∀ held scope frames (c : Expr α) body,
    Balanced settings.limits 1 0 (turns settings fuel held scope frames c body)

section Parts

variable {fuel : Nat}

/-- An expression makes a level and with it room for one scope, one case for each kind of node. -/
theorem eval_balanced (ih : AllBalanced α settings fuel) (held : List Value) (scope : ScopeId)
    (frames : List (Frame α)) (e : Expr α) :
    Balanced settings.limits 0 0 (eval settings (fuel + 1) held scope frames e) := by
  have hpart : ∀ held e, Balanced settings.limits 1 0 (eval settings fuel held scope frames e) :=
    fun held e => (ih.eval held scope frames e).weaken
  rw [eval.eq_def]
  refine Balanced.returning (Balanced.descend ?_ e.note) alone held scope
  cases e with
  | literal _ v => exact pure_balanced _
  | name site x => exact quiet_balanced _
  | unary site op e => exact (hpart held e).bind fun v => quiet_balanced _
  | operation site op left right =>
    refine (hpart held left).bind fun l => ?_
    cases op with
    -- the left operand may decide: nothing more is counted
    | logical op =>
      dsimp only
      split
      · exact pure_balanced _
      · exact hpart (l :: held) right
    | binary op => exact (hpart (l :: held) right).bind fun r => quiet_balanced _
  | assign _ x e =>
    refine (hpart held e).bind fun v => ?_
    exact (change_balanced (Machine.assign_neutral scope x v)).bind fun _ => pure_balanced _
  | call site callee args =>
    -- the callee, the arguments and the call itself each give back what they take
    refine (hpart held callee).bind fun f => ?_
    exact (arguments_balanced hpart args (f :: held)).bind fun values =>
      ih.call held frames site f values

/-- The body of a call, in a scope of its own. -/
theorem body_balanced (ih : AllBalanced α settings fuel) (held : List Value)
    (frames : List (Frame α)) (c : Closure α) (values : List Value) :
    Balanced settings.limits 1 1 (inScope settings held c.scope Flow.values fun scope => do
      change (Eval.bindParams scope c.params values)
      inCall (sequence (exec settings fuel held scope frames) c.body)) := by
  refine Balanced.inScope (fun scope => ?_) settings held c.scope Flow.values
  refine (change_balanced (Machine.bindParams_neutral scope c.params values)).bind fun _ => ?_
  exact (sequence_balanced (ih.exec held scope frames) c.body).inCall

/-- A call takes the scope that the level of its expression has made room for. -/
theorem call_balanced (ih : AllBalanced α settings fuel) (held : List Value)
    (frames : List (Frame α)) (site : α) (f : Value) (values : List Value) :
    Balanced settings.limits 1 0 (call settings (fuel + 1) held frames site f values) := by
  rw [call.eq_def]
  cases f with
  | builtin b => exact quiet_balanced _
  | nil | bool _ | integer _ | float _ | str _ => exact quiet_balanced _
  | function id name =>
    refine balanced_of_machine fun w htidy => ?_
    cases w.machine.closure? id with
    | none => exact quiet_balanced _ w htidy
    | some c =>
      dsimp only
      split
      · exact quiet_balanced _ w htidy
      · split
        · exact quiet_balanced _ w htidy
        · next hcalls =>
          -- the limit was checked, so there is room for one more call
          have hbody :=
            body_balanced ih (.function id name :: held) (.call c.body :: frames) c values
          have hcall := hbody.bind fun flow =>
            (land_balanced (.call c.body :: frames) flow).bind fun _ =>
              quiet_balanced (Eval.result site flow)
          obtain ⟨htidy', hrestored, hsound⟩ := hcall w htidy
          refine ⟨htidy', hrestored, fun hroom => hsound ⟨hroom.depth, ?_, hroom.scopes⟩⟩
          exact Nat.lt_of_not_le hcalls

/-- A block takes the scope that the level of its statement has made room for. -/
theorem block_balanced (ih : AllBalanced α settings fuel) (held : List Value) (scope : ScopeId)
    (frames : List (Frame α)) (body : List (Stmt α)) :
    Balanced settings.limits 1 0 (inScope settings held scope Flow.values fun inner =>
      sequence (exec settings fuel held inner frames) body) :=
  Balanced.inScope (fun inner => sequence_balanced (ih.exec held inner frames) body) settings held
    scope _

/-- A statement makes a level and with it room for one scope, one case for each kind. -/
theorem exec_balanced (ih : AllBalanced α settings fuel) (held : List Value) (scope : ScopeId)
    (frames : List (Frame α)) (s : Stmt α) :
    Balanced settings.limits 0 0 (exec settings (fuel + 1) held scope frames s) := by
  have hpart : ∀ e, Balanced settings.limits 1 0 (eval settings fuel held scope frames e) :=
    fun e => (ih.eval held scope frames e).weaken
  -- statements that change the machine, but none of the counters
  have hchange : ∀ {f : Machine α → Machine α}, Machine.Neutral f →
      Balanced settings.limits 1 0 (do change f; return Flow.normal) :=
    fun hf => (change_balanced hf).bind fun _ => pure_balanced _
  rw [exec.eq_def]
  refine Balanced.returning (Balanced.descend ?_ s.note) Flow.values held scope
  cases s with
  | expr _ e => exact (hpart e).bind fun _ => pure_balanced _
  | declare _ x e =>
    exact (optional_balanced hpart e).bind fun v => hchange (Machine.declare_neutral scope x v)
  | print _ args =>
    exact (texts_balanced hpart args).bind fun parts => hchange (Machine.printSegment_neutral _)
  | block _ body => exact block_balanced ih held scope frames body
  | cond _ condition consequent alternative =>
    refine (hpart condition).bind fun c => ?_
    split
    · exact block_balanced ih held scope frames consequent
    · cases alternative with
      | none => exact pure_balanced _
      -- an `else if` counts a level of its own, so it needs no more room than was left
      | some branch => exact (ih.exec held scope frames branch).weaken
  | loop _ condition body => exact ih.turns held scope frames condition body
  | function _ f params body => exact hchange (Machine.define_neutral ⟨params, body, scope⟩ f)
  | ret a e =>
    exact (optional_balanced hpart e).bind fun v => (note_balanced _).bind fun _ => pure_balanced _
  | breakLoop a | continueLoop a => exact (note_balanced _).bind fun _ => pure_balanced _

/-- The scopes of the turns follow one another, so there is one at a time. -/
theorem turns_balanced (ih : AllBalanced α settings fuel) (held : List Value) (scope : ScopeId)
    (frames : List (Frame α)) (c : Expr α) (body : List (Stmt α)) :
    Balanced settings.limits 1 0 (turns settings (fuel + 1) held scope frames c body) := by
  rw [turns]
  refine (ih.eval held scope frames c).weaken.bind fun v => ?_
  split
  · refine (block_balanced ih held scope (.loop body :: frames) body).bind fun flow => ?_
    cases flow with
    | normal | continuing =>
      exact (land_balanced _ _).bind fun _ => ih.turns held scope frames c body
    | breaking => exact (land_balanced _ _).bind fun _ => pure_balanced _
    | returning v => exact pure_balanced _
  · exact pure_balanced _

/-- **Whatever is evaluated is balanced**, under any bound on steps. -/
theorem balanced (α : Type) (settings : Settings) (fuel : Nat) : AllBalanced α settings fuel := by
  induction fuel with
  | zero =>
    refine ⟨fun held scope frames e => ?_, fun held frames site f values => ?_,
      fun held scope frames s => ?_, fun held scope frames c body => ?_⟩
    · rw [eval]
      exact throw_balanced _
    · rw [call]
      exact throw_balanced _
    · rw [exec]
      exact throw_balanced _
    · rw [turns]
      exact throw_balanced _
  | succ fuel ih => exact ⟨eval_balanced ih, call_balanced ih, exec_balanced ih, turns_balanced ih⟩

/-- A statement at the top level that is no expression, before those that follow. -/
theorem topLevelStmt_balanced {frames : List (Frame α)} {last : Value} {rest : List (Stmt α)}
    (hrest : Balanced settings.limits 0 0 (topLevel settings fuel frames last rest))
    (s : Stmt α) : Balanced settings.limits 0 0
      (followed (exec settings fuel [last] Arena.global frames s)
        (topLevel settings fuel frames last rest) fun flow => do
          land frames flow
          quiet (Eval.fail flow.misplaced s.note)) := by
  refine ((balanced α settings fuel).exec [last] Arena.global frames s).bind fun flow => ?_
  cases flow with
  | normal => exact hrest
  | breaking | continuing | returning _ =>
    exact (land_balanced _ _).bind fun _ => quiet_balanced _

/-- Between top-level statements everything is back. -/
theorem topLevel_balanced (frames : List (Frame α)) (last : Value) (statements : List (Stmt α)) :
    Balanced settings.limits 0 0 (topLevel settings fuel frames last statements) := by
  have hall := balanced α settings fuel
  induction statements generalizing last with
  | nil =>
    rw [topLevel]
    exact pure_balanced _
  | cons s rest ih =>
    cases s with
    | expr site e =>
      rw [topLevel]
      exact (hall.eval [last] Arena.global frames e).bind fun v => ih v
    | _ => exact topLevelStmt_balanced (ih last) _

end Parts

end Watched

/-! ## Programs -/

namespace Watch

variable {w : Watch α}

/-- **One program** restores what is counted. -/
theorem run_restores (settings : Settings) (fuel : Nat) (p : Program α)
    (h : w.machine.arena.Tidy) : w.Restores settings.limits 0 0 (w.run settings fuel p).2 := by
  rw [left_run]
  exact (Watched.topLevel_balanced _ .nil p.statements).returning _ _ _ w h

/-- **Programs one after the other** leave what is counted as it was before the first. -/
theorem runAll_restores (settings : Settings) (steps : List (Nat × Program α))
    (h : w.machine.arena.Tidy) : w.Restores settings.limits 0 0 (w.runAll settings steps).2 := by
  induction steps generalizing w with
  | nil => exact .refl h
  | cons step rest ih =>
    obtain ⟨fuel, p⟩ := step
    have hfirst := run_restores settings fuel p h
    exact hfirst.trans (ih hfirst.tidy)

end Watch

namespace Machine

/-- At first only the global scope is active. -/
theorem activeScopes_initial : (initial : Machine α).arena.activeScopes = [Arena.global] := rfl

/-- At first no slot is free. -/
theorem tidy_initial : (initial : Machine α).arena.Tidy := by
  refine ⟨⟨List.nodup_nil, fun i => ⟨(nomatch ·), fun ⟨hlt, hnone⟩ => ?_⟩⟩, ?_⟩
  · -- the only slot is that of the global scope
    have hi : i = 0 := Nat.lt_one_iff.mp hlt
    subst hi
    exact nomatch hnone
  · rw [activeScopes_initial]
    exact List.mem_singleton.mpr rfl

/-- **Every exit restores what is counted.**  Run programs one after another on a fresh machine,
    each with a bound on its steps, and watch every state on the way.  After the last program,
    however it ended, depth and calls are zero and only the global scope is active.  In every state
    passed the limits hold, and no more scopes but the global one are active than there are levels;
    and from every such state, whatever expression, statement or call is evaluated in whatever
    scope, and however it ends, what is counted is as it was. -/
theorem restored_of_passed (settings : Settings) (steps : List (Nat × Program α)) :
    let watched := (Watch.start initial).runAll settings steps
    (watched.1, watched.2.machine) = initial.runAll settings steps ∧
    watched.2.machine.depth = 0 ∧ watched.2.machine.calls = 0 ∧
    watched.2.machine.arena.activeScopes = [Arena.global] ∧
    ∀ m ∈ watched.2.passed,
      m.depth ≤ settings.limits.depth ∧ m.calls ≤ settings.limits.calls ∧
      (m.arena.activeScopes.filter (· ≠ Arena.global)).length ≤ m.depth ∧
      ∀ fuel held scope,
        (∀ e, Restored m (left (Eval.eval settings fuel held scope e m))) ∧
        (∀ s, Restored m (left (Eval.exec settings fuel held scope s m))) ∧
        (∀ site f values, Restored m (left (Eval.call settings fuel held site f values m))) := by
  intro watched
  have hrestores := Watch.runAll_restores (w := .start initial) settings steps tidy_initial
  have hback := hrestores.restored
  refine ⟨Watch.runAll_eq settings steps (.start initial), hback.depth, hback.calls,
    hback.active.trans activeScopes_initial, fun m hm => ?_⟩
  have hinitial : (initial : Machine α).Room settings.limits 0 0 :=
    ⟨Nat.zero_le _, Nat.zero_le _, Nat.le_refl 0⟩
  have hstart : (Watch.start (initial : Machine α)).Sound settings.limits := by
    intro m hm
    rw [List.mem_singleton.mp hm]
    exact ⟨tidy_initial, hinitial⟩
  obtain ⟨htidy, hroom⟩ := hrestores.sound hinitial hstart m hm
  refine ⟨hroom.depth, hroom.calls, hroom.scopes, fun fuel held scope => ?_⟩
  -- what the evaluator does alone it does under watch, and there it is balanced
  have hshown := Watched.shown α settings fuel
  have hbalanced := Watched.balanced α settings fuel
  refine ⟨fun e => ?_, fun s => ?_, fun site f values => ?_⟩
  · have hleft := (hshown.eval held scope [] e).left (.start m)
    exact hleft ▸ (hbalanced.eval held scope [] e (.start m) htidy).restored
  · have hleft := (hshown.exec held scope [] s).left (.start m)
    exact hleft ▸ (hbalanced.exec held scope [] s (.start m) htidy).restored
  · have hleft := (hshown.call held [] site f values).left (.start m)
    exact hleft ▸ (hbalanced.call held [] site f values (.start m) htidy).restored

end Machine

end Scriptlet
