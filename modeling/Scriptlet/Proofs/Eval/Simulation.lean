/-
  Simulation: a run on a machine that reclaims, and the same run on one that does not.

  1. **Tracking** (`Eval.Tracks`) — two computations, started on machines that agree, end in the
     same way on machines that agree: with the same fault, or with results that correspond.  The
     values a result carries are held from then on.
  2. **Rules** — one for each way to put computations together; a result that is kept while
     something else is evaluated stays among the held values.
  3. **The crux (`tracked`)** — by induction on the bound on steps, every expression, call,
     statement and loop tracks itself.
-/
import Scriptlet.Eval.Evaluate
import Scriptlet.Proofs.Eval.Agreement

namespace Scriptlet

/-- Settings under which slots are used again. -/
def Settings.reclaiming (limits : Limits) : Settings := { limits, reclaim := true }

/-- Settings under which no slot is emptied. -/
def Settings.keeping (limits : Limits) : Settings := { limits, reclaim := false }

/-- What a computation leaves behind, with a result or without one. -/
def left {ε σ β : Type} : EStateM.Result ε σ β → σ
  | .ok _ s | .error _ s => s

namespace Eval

open Machine (Agree)

variable {α β γ : Type} {limits : Limits} {stack : List (ScopeId × ScopeId)}
  {pre mid held : List (Value × Value)} {s t : ScopeId}

/-! ## Results that correspond -/

/-- When two results correspond, and the pairs of values they carry. -/
abbrev Correspondence (β : Type) := β → β → List (Value × Value) → Prop

/-- Two values carry themselves. -/
def ofValue : Correspondence Value := fun v w l => l = [(v, w)]

/-- Lists of values carry their values. -/
def ofValues : Correspondence (List Value) := fun vs ws l =>
  vs = l.map Prod.fst ∧ ws = l.map Prod.snd

/-- Results that carry no values correspond when they are equal. -/
def ofEqual : Correspondence β := fun b c l => b = c ∧ l = []

/-- Flows of the same kind; a `return` carries its value. -/
def ofFlow : Correspondence Flow
  | .normal, .normal, l | .breaking, .breaking, l | .continuing, .continuing, l => l = []
  | .returning v, .returning w, l => l = [(v, w)]
  | _, _, _ => False

/-- How two flows correspond, case by case. -/
theorem ofFlow_cases {flow flow' : Flow} {l : List (Value × Value)} (h : ofFlow flow flow' l) :
    (flow = .normal ∧ flow' = .normal ∧ l = []) ∨ (flow = .breaking ∧ flow' = .breaking ∧ l = []) ∨
      (flow = .continuing ∧ flow' = .continuing ∧ l = []) ∨
      ∃ v w, flow = .returning v ∧ flow' = .returning w ∧ l = [(v, w)] := by
  cases flow with
  | normal =>
    cases flow' with
    | normal => exact .inl ⟨rfl, rfl, h⟩
    | _ => exact absurd h id
  | breaking =>
    cases flow' with
    | breaking => exact .inr (.inl ⟨rfl, rfl, h⟩)
    | _ => exact absurd h id
  | continuing =>
    cases flow' with
    | continuing => exact .inr (.inr (.inl ⟨rfl, rfl, h⟩))
    | _ => exact absurd h id
  | returning v =>
    cases flow' with
    | returning w => exact .inr (.inr (.inr ⟨v, w, rfl, rfl, h⟩))
    | _ => exact absurd h id

theorem ofFlow_values {flow flow' : Flow} {l : List (Value × Value)} (h : ofFlow flow flow' l) :
    flow.values = l.map Prod.fst ∧ flow'.values = l.map Prod.snd := by
  rcases ofFlow_cases h with
    ⟨rfl, rfl, rfl⟩ | ⟨rfl, rfl, rfl⟩ | ⟨rfl, rfl, rfl⟩ | ⟨v, w, rfl, rfl, rfl⟩
  all_goals exact ⟨rfl, rfl⟩

/-- Two computations end in the same way, on machines that agree. -/
def Ends (stack : List (ScopeId × ScopeId)) (held : List (Value × Value)) (R : Correspondence β) :
    EStateM.Result (Halt α) (Machine α) β → EStateM.Result (Halt α) (Machine α) β → Prop
  | .ok b m, .ok c n => ∃ l, R b c l ∧ Agree stack (l ++ held) m n
  | .error e m, .error e' n => e = e' ∧ Agree stack held m n
  | _, _ => False

/-- Started on machines that agree, with the pairs `pre` at hand, two computations end in the same
    way, with the pairs `held` still at hand. -/
def Tracks (stack : List (ScopeId × ScopeId)) (pre held : List (Value × Value))
    (R : Correspondence β) (p q : Eval α β) : Prop :=
  ∀ m n, Agree stack pre m n → Ends stack held R (p m) (q n)

/-! ## Rules -/

section Rules

variable {R : Correspondence β} {S : Correspondence γ} {p q : Eval α β} {f g : β → Eval α γ}

/-- What is known of machines that agree may be used. -/
theorem tracks_of_agree (h : ∀ m n, Agree (α := α) stack pre m n → Tracks stack pre held R p q) :
    Tracks stack pre held R p q :=
  fun m n hagree => h m n hagree m n hagree

/-- Results that correspond are held from then on. -/
theorem tracks_pure {b c : β} {l : List (Value × Value)} (h : R b c l)
    (hsub : ∀ x ∈ l ++ held, x ∈ pre) : Tracks (α := α) stack pre held R (pure b) (pure c) :=
  fun _ _ hagree => ⟨l, h, hagree.weaken hsub⟩

theorem tracks_throw (hsub : ∀ x ∈ held, x ∈ pre) (e : Halt α) :
    Tracks stack pre held R (throw e) (throw e) :=
  fun _ _ hagree => ⟨rfl, hagree.weaken hsub⟩

/-- Both runs fail for the same cause, at the same site. -/
theorem tracks_fail (hsub : ∀ x ∈ held, x ∈ pre) (cause : RuntimeFault) (site : α) :
    Tracks stack pre held R (fail cause site) (fail cause site) :=
  tracks_throw hsub _

/-- A step of the machine tracks one that keeps the agreement. -/
theorem tracks_modify {f g : Machine α → Machine α} (hsub : ∀ x ∈ held, x ∈ pre)
    (h : ∀ m n, Agree stack pre m n → Agree stack pre (f m) (g n)) :
    Tracks stack pre held ofEqual (modify f : Eval α PUnit) (modify g) :=
  fun m n hagree => ⟨[], ⟨rfl, rfl⟩, (h m n hagree).weaken hsub⟩

theorem get_bind (f : Machine α → Eval α β) (m : Machine α) : (get >>= f) m = f m m := rfl

/-- The two ways in which computations end together. -/
theorem Ends.cases {r r' : EStateM.Result (Halt α) (Machine α) β} (h : Ends stack held R r r') :
    (∃ b m c n l, r = .ok b m ∧ r' = .ok c n ∧ R b c l ∧ Agree stack (l ++ held) m n) ∨
      ∃ e m n, r = .error e m ∧ r' = .error e n ∧ Agree stack held m n := by
  match r, r' with
  | .ok b m, .ok c n =>
    obtain ⟨l, hR, hagree⟩ := h
    exact .inl ⟨b, m, c, n, l, rfl, rfl, hR, hagree⟩
  | .error e m, .error e' n =>
    obtain ⟨rfl, hagree⟩ := h
    exact .inr ⟨e, m, n, rfl, rfl, hagree⟩

/-- One computation after another. -/
theorem Ends.bind {m n : Machine α} (h : Ends stack mid R (p m) (q n))
    (hsub : ∀ x ∈ held, x ∈ mid)
    (hnext : ∀ b c l, R b c l → Tracks stack (l ++ mid) held S (f b) (g c)) :
    Ends stack held S ((p >>= f) m) ((q >>= g) n) := by
  show Ends stack held S (EStateM.bind p f m) (EStateM.bind q g n)
  unfold EStateM.bind
  rcases h.cases with ⟨b, m', c, n', l, hp, hq, hR, hagree⟩ | ⟨e, m', n', hp, hq, hagree⟩
  · rw [hp, hq]
    exact hnext b c l hR m' n' hagree
  · rw [hp, hq]
    exact ⟨rfl, hagree.weaken hsub⟩

/-- **One computation after the other**: what the first one returns is held during the second. -/
theorem Tracks.bind (h : Tracks stack pre mid R p q) (hsub : ∀ x ∈ held, x ∈ mid)
    (hnext : ∀ b c l, R b c l → Tracks stack (l ++ mid) held S (f b) (g c)) :
    Tracks stack pre held S (p >>= f) (q >>= g) :=
  fun m n hagree => (h m n hagree).bind hsub hnext

/-- A value, and what is done with it while nothing else is kept for later. -/
theorem Tracks.bindValue {p q : Eval α Value} {f g : Value → Eval α γ}
    (h : Tracks stack pre held ofValue p q)
    (hnext : ∀ v w, Tracks stack ((v, w) :: held) held S (f v) (g w)) :
    Tracks stack pre held S (p >>= f) (q >>= g) := by
  refine h.bind (fun _ hx => hx) fun v w l hvalue => ?_
  obtain rfl : l = [(v, w)] := hvalue
  exact hnext v w

/-- A choice by a value. -/
theorem tracks_branch {p' q' : Eval α β} (v w : Value) (hthen : Tracks stack held held R p q)
    (helse : Tracks stack held held R p' q') : Tracks stack ((v, w) :: held) held R
      (if v.isTruthy then p else p') (if w.isTruthy then q else q') := by
  intro m n hagree
  have hbefore := hagree.weaken fun x hx => List.mem_cons_of_mem _ hx
  have htruth : w.isTruthy = v.isTruthy := (hagree.value (List.mem_cons_self ..)).2.2
  rw [htruth]
  split
  · exact hthen m n hbefore
  · exact helse m n hbefore

/-- Fewer pairs need be at hand before. -/
theorem Tracks.strengthen (h : Tracks stack mid held R p q) (hsub : ∀ x ∈ mid, x ∈ pre) :
    Tracks stack pre held R p q :=
  fun m n hagree => h m n (hagree.weaken hsub)

/-- Fewer pairs may be kept after. -/
theorem Tracks.forget (h : Tracks stack pre mid R p q) (hsub : ∀ x ∈ held, x ∈ mid) :
    Tracks stack pre held R p q := by
  intro m n hagree
  rcases (h m n hagree).cases with
    ⟨b, m', c, n', l, hp, hq, hR, hagree⟩ | ⟨e, m', n', hp, hq, hagree⟩
  · rw [hp, hq]
    refine ⟨l, hR, hagree.weaken fun x hx => ?_⟩
    rcases List.mem_append.mp hx with hx | hx
    · exact List.mem_append_left _ hx
    · exact List.mem_append_right _ (hsub x hx)
  · rw [hp, hq]
    exact ⟨rfl, hagree.weaken hsub⟩

/-- A tidy-up that keeps the agreement. -/
theorem Tracks.always (h : Tracks stack pre held R p q) {tidy : Machine α → Machine α}
    (htidy : ∀ held m n, Agree stack held m n → Agree stack held (tidy m) (tidy n)) :
    Tracks stack pre held R (Scriptlet.always tidy p) (Scriptlet.always tidy q) := by
  intro m n hagree
  unfold Scriptlet.always
  rcases (h m n hagree).cases with
    ⟨b, m', c, n', l, hp, hq, hR, hagree⟩ | ⟨e, m', n', hp, hq, hagree⟩
  · rw [hp, hq]
    exact ⟨l, hR, htidy _ m' n' hagree⟩
  · rw [hp, hq]
    exact ⟨rfl, htidy _ m' n' hagree⟩

/-- One level deeper. -/
theorem Tracks.descend (h : Tracks stack held held R p q) (site : α) :
    Tracks stack held held R (descend (.reclaiming limits) site p)
      (descend (.keeping limits) site q) := by
  intro m n hagree
  have hdepth := hagree.depth
  show Ends stack held R
    ((if m.depth < limits.depth then _ else _ : Eval α β) m)
    ((if n.depth < limits.depth then _ else _ : Eval α β) n)
  rw [hdepth]
  by_cases hlt : m.depth < limits.depth
  · -- a level is left on both sides: it is counted before, and given back on every way out
    rw [if_pos hlt, if_pos hlt]
    have hdeeper := hagree.withCounters id (· + 1) id
    have htidy : Tracks stack held held R
        (Scriptlet.always (fun m => { m with depth := m.depth - 1 }) p)
        (Scriptlet.always (fun m => { m with depth := m.depth - 1 }) q) :=
      h.always fun _ m n hagree => hagree.withCounters id (· - 1) id
    exact htidy _ _ hdeeper
  · -- at the limit both runs fail alike
    rw [if_neg hlt, if_neg hlt]
    exact ⟨rfl, hagree⟩

/-- Inside one more call. -/
theorem Tracks.inCall (h : Tracks stack held held R p q) :
    Tracks stack held held R (inCall p) (inCall q) := by
  intro m n hagree
  have hdeeper := hagree.withCounters id id (· + 1)
  have htidy : Tracks stack held held R
      (Scriptlet.always (fun m => { m with calls := m.calls - 1 }) p)
      (Scriptlet.always (fun m => { m with calls := m.calls - 1 }) q) :=
    h.always fun _ m n hagree => hagree.withCounters id id (· - 1)
  exact htidy _ _ hdeeper

/-- A body in a scope of its own, as one equation: the scope ends on both ways out. -/
theorem inScope_eq (settings : Settings) (values : List Value) (needed : β → List Value)
    (p : ScopeId → Eval α β) (m : Machine α) : inScope settings values s needed p m =
      match p (m.arena.nextSlot s) (m.opening s) with
      | .ok b m' => .ok b (m'.endScope settings (needed b ++ values) (m.arena.nextSlot s))
      | .error e m' => .error e (m'.endScope settings values (m.arena.nextSlot s)) := by
  rw [inScope, Arena.push_eq]
  rfl

/-- A scope of its own: what the result carries is still needed when the scope ends. -/
theorem ends_inScope {m n : Machine α} {p q : ScopeId → Eval α β} {needed : β → List Value}
    (hopen : Agree ((m.arena.nextSlot s, n.arena.nextSlot t) :: stack) pre (m.opening s)
      (n.opening t))
    (hglobal : m.arena.nextSlot s ≠ Arena.global)
    (h : ∀ i k, Tracks ((i, k) :: stack) pre held R (p i) (q k))
    (hneeded : ∀ {b c l}, R b c l → needed b = l.map Prod.fst ∧ needed c = l.map Prod.snd) :
    Ends stack held R (inScope (.reclaiming limits) (held.map Prod.fst) s needed p m)
      (inScope (.keeping limits) (held.map Prod.snd) t needed q n) := by
  rw [inScope_eq, inScope_eq]
  rcases (h _ _ _ _ hopen).cases with
    ⟨b, m', c, n', l, hp, hq, hR, hagree⟩ | ⟨e, m', n', hp, hq, hagree⟩
  · -- with a result, its values are held too while the scope ends
    have hend := hagree.endScope hglobal limits
    obtain ⟨hb, hc⟩ := hneeded hR
    rw [List.map_append, List.map_append, ← hb, ← hc] at hend
    rw [hp, hq]
    exact ⟨l, hR, hend⟩
  · have hend := hagree.endScope hglobal limits
    rw [hp, hq]
    exact ⟨rfl, hend⟩

end Rules

/-! ## Lists -/

/-- Everything in `held` is at hand when more is. -/
theorem held_sub (l : List (Value × Value)) : ∀ x ∈ held, x ∈ l ++ held :=
  fun _ hx => List.mem_append_right l hx

theorem normal_tracks (hsub : ∀ x ∈ held, x ∈ pre) :
    Tracks (α := α) stack pre held ofFlow (pure .normal) (pure .normal) :=
  tracks_pure (b := Flow.normal) (c := Flow.normal) (l := []) rfl hsub

/-- **Arguments are evaluated one by one**, and each is held while the next ones are. -/
theorem arguments_track {eval eval' : List Value → Expr α → Eval α Value}
    (h : ∀ held e, Tracks stack held held ofValue (eval (held.map Prod.fst) e)
      (eval' (held.map Prod.snd) e)) (es : List (Expr α)) (held : List (Value × Value)) :
    Tracks stack held held ofValues (arguments eval (held.map Prod.fst) es)
      (arguments eval' (held.map Prod.snd) es) := by
  induction es generalizing held with
  | nil => exact tracks_pure (l := []) ⟨rfl, rfl⟩ fun _ hx => hx
  | cons e rest ih =>
    refine (h held e).bindValue fun v w => ?_
    -- the value stays at hand while the other arguments are evaluated
    refine (ih ((v, w) :: held)).bind (held_sub [(v, w)]) fun vs ws l hvalues => ?_
    refine tracks_pure (l := (v, w) :: l) ?_ fun x hx => List.perm_middle.mem_iff.mpr hx
    exact ⟨congrArg (v :: ·) hvalues.1, congrArg (w :: ·) hvalues.2⟩

theorem texts_track {eval eval' : Expr α → Eval α Value}
    (h : ∀ e, Tracks stack held held ofValue (eval e) (eval' e)) (es : List (Expr α)) :
    Tracks stack held held ofEqual (texts eval es) (texts eval' es) := by
  induction es with
  | nil => exact tracks_pure (l := []) ⟨rfl, rfl⟩ fun _ hx => hx
  | cons e rest ih =>
    refine (h e).bindValue fun v w => ?_
    refine tracks_of_agree fun m n hagree => ?_
    have htext : w.text = v.text := (hagree.value (List.mem_cons_self ..)).2.1
    -- only the text is needed from here on, and the value may be reclaimed
    refine (ih.strengthen (held_sub [(v, w)])).bind (fun _ hx => hx) fun vs ws l hsame => ?_
    obtain ⟨rfl, rfl⟩ := hsame
    exact tracks_pure (l := []) ⟨by rw [htext], rfl⟩ fun _ hx => hx

/-- **Statements run one by one**, until one of them ends the block. -/
theorem sequence_track {exec exec' : Stmt α → Eval α Flow}
    (h : ∀ s, Tracks stack held held ofFlow (exec s) (exec' s)) (body : List (Stmt α)) :
    Tracks stack held held ofFlow (sequence exec body) (sequence exec' body) := by
  induction body with
  | nil => exact normal_tracks fun _ hx => hx
  | cons s rest ih =>
    refine (h s).bind (fun _ hx => hx) fun flow flow' l hflow => ?_
    rcases ofFlow_cases hflow with
      ⟨rfl, rfl, rfl⟩ | ⟨rfl, rfl, rfl⟩ | ⟨rfl, rfl, rfl⟩ | ⟨v, w, rfl, rfl, rfl⟩
    · exact ih
    all_goals exact tracks_pure hflow fun _ hx => hx

theorem optional_tracks {eval eval' : Expr α → Eval α Value}
    (h : ∀ e, Tracks stack held held ofValue (eval e) (eval' e)) (e : Option (Expr α)) :
    Tracks stack held held ofValue (optional eval e) (optional eval' e) := by
  cases e with
  | none => exact fun m n hagree => ⟨[(.nil, .nil)], rfl, hagree.hold_plain rfl⟩
  | some e => exact h e

/-! ## Operators and functions -/

/-- A result that is no function, or a fault, the same in both. -/
theorem lift_tracks {r : Except RuntimeFault Value} (hplain : ∀ v, r = .ok v → v.closure? = none)
    (hsub : ∀ x ∈ held, x ∈ pre) (site : α) :
    Tracks stack pre held ofValue (lift site r) (lift site r) := by
  cases r with
  | ok v => exact fun m n hagree => ⟨[(v, v)], rfl, (hagree.weaken hsub).hold_plain (hplain v rfl)⟩
  | error cause => exact tracks_fail hsub cause site

/-- A builtin does the same on values that correspond. -/
theorem callBuiltin_tracks (vals : List (Value × Value)) (b : Builtin) (site : α) :
    Tracks stack (vals ++ held) held ofValue (callBuiltin site b (vals.map Prod.fst))
      (callBuiltin site b (vals.map Prod.snd)) := by
  match vals with
  | [(v, w)] =>
    -- a builtin takes one argument
    refine tracks_of_agree fun m n hagree => ?_
    have happly : b.apply w = b.apply v := hagree.builtin (List.mem_cons_self ..) b
    show Tracks stack _ held ofValue (lift site (b.apply v)) (lift site (b.apply w))
    rw [happly]
    exact lift_tracks (fun u hu => Builtin.apply_plain hu) (held_sub _) site
  | [] => exact tracks_fail (held_sub _) _ site
  | _ :: _ :: rest =>
    -- any other number of them is reported, and it is the same number
    have hlength : (rest.map Prod.snd).length = (rest.map Prod.fst).length := by
      rw [List.length_map, List.length_map]
    show Tracks stack _ held ofValue (fail (.arity _ _ ((rest.map Prod.fst).length + 1 + 1)) site)
      (fail (.arity _ _ ((rest.map Prod.snd).length + 1 + 1)) site)
    rw [hlength]
    exact tracks_fail (held_sub _) _ site

/-- What binding one name keeps, binding the parameters of a call keeps. -/
theorem bindParams_keeps {P : Machine α → Prop} {scope : ScopeId}
    (h : ∀ m x v, P m → P (m.declare scope x v)) (params : List String) (values : List Value)
    {m : Machine α} (hm : P m) : P (bindParams scope params values m) := by
  unfold bindParams
  generalize params.zip values = entries
  induction entries generalizing m with
  | nil => exact hm
  | cons entry rest ih => exact ih (h m entry.1 entry.2 hm)

theorem agree_bindParams (hs : (s, t) ∈ stack) (params : List String) {vals : List (Value × Value)}
    (hvals : ∀ x ∈ vals, x ∈ held) {m n : Machine α} (h : Agree stack held m n) :
    Agree stack held (bindParams s params (vals.map Prod.fst) m)
      (bindParams t params (vals.map Prod.snd) n) := by
  unfold bindParams
  induction params generalizing vals m n with
  | nil => exact h
  | cons x params ih =>
    cases vals with
    | nil => exact h
    | cons q vals =>
      have hdeclare := h.declare hs (hvals q (List.mem_cons_self ..)) x
      exact ih (fun y hy => hvals y (List.mem_cons_of_mem q hy)) hdeclare

/-- A definition on both machines: the closures correspond. -/
theorem defineFunction_tracks (hs : (s, t) ∈ stack) (f : String) (params : List String)
    (body : List (Stmt α)) :
    Tracks stack held held ofEqual (defineFunction s f params body)
      (defineFunction t f params body) := by
  refine tracks_modify (fun _ hx => hx) fun m n hagree => ?_
  have hdefine := (hagree.define hs params body f).declare hs (List.mem_cons_self ..) f
  exact hdefine.weaken (held_sub [_])

theorem result_tracks {flow flow' : Flow} {l : List (Value × Value)} (h : ofFlow flow flow' l)
    (hsub : ∀ x ∈ held, x ∈ mid) (site : α) :
    Tracks stack (l ++ mid) held ofValue (result site flow) (result site flow') := by
  rcases ofFlow_cases h with
    ⟨rfl, rfl, rfl⟩ | ⟨rfl, rfl, rfl⟩ | ⟨rfl, rfl, rfl⟩ | ⟨v, w, rfl, rfl, rfl⟩
  · exact fun m n hagree => ⟨[(.nil, .nil)], rfl, (hagree.weaken hsub).hold_plain rfl⟩
  · exact tracks_fail hsub _ site
  · exact tracks_fail hsub _ site
  · refine tracks_pure (l := [(v, w)]) rfl fun x hx => ?_
    rcases List.mem_append.mp hx with hx | hx
    · exact List.mem_append_left _ hx
    · exact List.mem_append_right _ (hsub x hx)

/-! ## Expressions -/

/-- Everything tracks itself under a bound on steps. -/
structure Tracked (α : Type) (limits : Limits) (fuel : Nat) : Prop where
  eval : ∀ stack held s t (e : Expr α), (s, t) ∈ stack → Tracks stack held held ofValue
    (eval (.reclaiming limits) fuel (held.map Prod.fst) s e)
    (eval (.keeping limits) fuel (held.map Prod.snd) t e)
  call : ∀ stack held (site : α) q vals, Tracks stack (q :: vals ++ held) held ofValue
    (call (.reclaiming limits) fuel (held.map Prod.fst) site q.1 (vals.map Prod.fst))
    (call (.keeping limits) fuel (held.map Prod.snd) site q.2 (vals.map Prod.snd))
  exec : ∀ stack held s t (b : Stmt α), (s, t) ∈ stack → Tracks stack held held ofFlow
    (exec (.reclaiming limits) fuel (held.map Prod.fst) s b)
    (exec (.keeping limits) fuel (held.map Prod.snd) t b)
  turns : ∀ stack held s t (c : Expr α) body, (s, t) ∈ stack → Tracks stack held held ofFlow
    (turns (.reclaiming limits) fuel (held.map Prod.fst) s c body)
    (turns (.keeping limits) fuel (held.map Prod.snd) t c body)

variable {fuel : Nat}

/-- A name has values that correspond, or none on both machines. -/
theorem name_tracks (hs : (s, t) ∈ stack) (x : String) (site : α) :
    Tracks stack held held ofValue (lookUp site s x) (lookUp site t x) := by
  intro m n hagree
  rw [lookUp, lookUp, get_bind, get_bind]
  rcases hagree.get? hs x with ⟨hm, hn⟩ | ⟨v, w, hm, hn, hboth⟩
  · rw [hm, hn]
    exact ⟨rfl, hagree⟩
  · rw [hm, hn]
    exact ⟨[(v, w)], rfl, hboth⟩

/-- **An operation**: the left operand is held while the right one is evaluated. -/
theorem operation_tracks (ih : Tracked α limits fuel) (hs : (s, t) ∈ stack) (op : Operator)
    (left right : Expr α) (site : α) :
    Tracks stack held held ofValue
      (operation (fun held e => eval (.reclaiming limits) fuel held s e)
        (fun op l r => lift site (op.apply l r)) (held.map Prod.fst) op left right)
      (operation (fun held e => eval (.keeping limits) fuel held t e)
        (fun op l r => lift site (op.apply l r)) (held.map Prod.snd) op left right) := by
  refine (ih.eval stack held s t left hs).bindValue fun v w => ?_
  have hright := ih.eval stack ((v, w) :: held) s t right hs
  cases op with
  | logical op =>
    refine tracks_of_agree fun m n hagree => ?_
    -- values that correspond are alike in truth, so both runs decide alike
    have htruth : w.isTruthy = v.isTruthy := (hagree.value (List.mem_cons_self ..)).2.2
    have hdecided : op.decidedBy w = op.decidedBy v := by
      cases op <;> simp only [LogicalOp.decidedBy, htruth]
    dsimp only
    rw [hdecided]
    by_cases hd : op.decidedBy v = true
    · rw [if_pos hd, if_pos hd]
      -- decided: the left value is returned, and is held already
      exact tracks_pure (l := [(v, w)]) rfl fun _ hx => hx
    · rw [if_neg hd, if_neg hd]
      -- undecided: it is forgotten when the right one is returned
      exact hright.forget (held_sub [(v, w)])
  | binary op =>
    refine hright.bind (held_sub [(v, w)]) fun v' w' l hvalue => ?_
    obtain rfl : l = [(v', w')] := hvalue
    refine tracks_of_agree fun m n hagree => ?_
    -- the operator gives one result on values that correspond, and none that names a closure
    have happly : op.apply w w' = op.apply v v' :=
      hagree.binary (List.mem_cons_of_mem _ (List.mem_cons_self ..)) (List.mem_cons_self ..) op
    dsimp only
    rw [happly]
    refine lift_tracks (fun u hu => BinaryOp.apply_plain hu) (fun x hx => ?_) site
    exact List.mem_cons_of_mem _ (List.mem_cons_of_mem _ hx)

/-- **Expressions**, by the kind of expression. -/
theorem eval_tracks (ih : Tracked α limits fuel) (hs : (s, t) ∈ stack) (e : Expr α) :
    Tracks stack held held ofValue
      (eval (.reclaiming limits) (fuel + 1) (held.map Prod.fst) s e)
      (eval (.keeping limits) (fuel + 1) (held.map Prod.snd) t e) := by
  rw [eval.eq_def, eval.eq_def]
  refine Tracks.descend ?_ e.note
  cases e with
  | literal _ v =>
    -- a literal names no closure, so it corresponds to itself
    exact fun m n hagree => ⟨[(v.value, v.value)], rfl, hagree.hold_plain v.closure?_value⟩
  | name site x => exact name_tracks hs x site
  | unary site op e =>
    refine (ih.eval stack held s t e hs).bindValue fun v w => ?_
    refine tracks_of_agree fun m n hagree => ?_
    rw [hagree.unary (List.mem_cons_self ..) op]
    exact lift_tracks (fun u hu => UnaryOp.apply_plain hu) (held_sub [(v, w)]) site
  | operation site op left right => exact operation_tracks ih hs op left right site
  | assign _ x e =>
    refine (ih.eval stack held s t e hs).bindValue fun v w => ?_
    -- the scopes of the name correspond, so what is bound in them does
    have hassign : Tracks stack ((v, w) :: held) ((v, w) :: held) ofEqual
        (modify fun m => m.assign s x v : Eval α PUnit) (modify fun m => m.assign t x w) :=
      tracks_modify (fun _ hx => hx) fun m n hagree => hagree.assign hs (List.mem_cons_self ..) x
    refine hassign.bind (held_sub [(v, w)]) fun _ _ l hsame => ?_
    obtain ⟨-, rfl⟩ := hsame
    exact tracks_pure (l := [(v, w)]) rfl fun _ hx => hx
  | call site callee args =>
    refine (ih.eval stack held s t callee hs).bindValue fun f g => ?_
    have hargs : Tracks stack ((f, g) :: held) ((f, g) :: held) ofValues
        (arguments (fun held e => eval (.reclaiming limits) fuel held s e) (f :: held.map Prod.fst)
          args)
        (arguments (fun held e => eval (.keeping limits) fuel held t e) (g :: held.map Prod.snd)
          args) :=
      arguments_track (fun held e => ih.eval stack held s t e hs) args ((f, g) :: held)
    refine hargs.bind (held_sub [(f, g)]) fun vs ws vals hvalues => ?_
    obtain ⟨rfl, rfl⟩ := hvalues
    -- the callee is held before the arguments here, behind them in the call
    refine (ih.call stack held site (f, g) vals).strengthen fun x hx => ?_
    exact List.perm_middle.mem_iff.mpr hx

/-! ## Calls -/

/-- A call of a value that is no closure. -/
theorem callPlain_tracks (f : Value) (hplain : f.closure? = none) (site : α)
    (vals : List (Value × Value)) : Tracks stack (vals ++ held) held ofValue
      (call (.reclaiming limits) (fuel + 1) (held.map Prod.fst) site f (vals.map Prod.fst))
      (call (.keeping limits) (fuel + 1) (held.map Prod.snd) site f (vals.map Prod.snd)) := by
  rw [call.eq_def, call.eq_def]
  match f, hplain with
  | .builtin b, _ => exact callBuiltin_tracks vals b site
  | .nil, _ | .bool _, _ | .integer _, _ | .float _, _ | .str _, _ =>
    exact tracks_fail (held_sub vals) _ site

/-- The body of a call: the arguments are bound first. -/
theorem body_tracks (ih : Tracked α limits fuel) (hs : (s, t) ∈ stack) (params : List String)
    (body : List (Stmt α)) {vals : List (Value × Value)} :
    Tracks stack (vals ++ held) held ofFlow
      (do
        modify (bindParams s params (vals.map Prod.fst))
        inCall (sequence (exec (.reclaiming limits) fuel (held.map Prod.fst) s) body))
      (do
        modify (bindParams t params (vals.map Prod.snd))
        inCall (sequence (exec (.keeping limits) fuel (held.map Prod.snd) t) body)) := by
  -- the arguments are bound on both sides before the body starts
  have hbind : Tracks stack (vals ++ held) held ofEqual
      (modify (bindParams s params (vals.map Prod.fst)) : Eval α PUnit)
      (modify (bindParams t params (vals.map Prod.snd))) :=
    tracks_modify (held_sub vals) fun m n hagree =>
      agree_bindParams hs params (fun x hx => List.mem_append_left held hx) hagree
  refine hbind.bind (fun _ hx => hx) fun _ _ l hsame => ?_
  obtain ⟨-, rfl⟩ := hsame
  exact (sequence_track (fun b => ih.exec stack held s t b hs) body).inCall

/-- The scope of a call; the callee is held until it ends. -/
theorem activation_ends (ih : Tracked α limits fuel) (params : List String) (body : List (Stmt α))
    (q : Value × Value) (vals : List (Value × Value)) {m n : Machine α}
    (hopen : Agree ((m.arena.nextSlot s, n.arena.nextSlot t) :: stack) (q :: vals ++ held)
      (m.opening s) (n.opening t)) (hglobal : m.arena.nextSlot s ≠ Arena.global) :
    Ends stack (q :: held) ofFlow
      (inScope (.reclaiming limits) (q.1 :: held.map Prod.fst) s Flow.values (fun i => do
        modify (bindParams i params (vals.map Prod.fst))
        inCall (sequence (exec (.reclaiming limits) fuel (q.1 :: held.map Prod.fst) i) body)) m)
      (inScope (.keeping limits) (q.2 :: held.map Prod.snd) t Flow.values (fun k => do
        modify (bindParams k params (vals.map Prod.snd))
        inCall (sequence (exec (.keeping limits) fuel (q.2 :: held.map Prod.snd) k) body)) n) := by
  have hopen' : Agree ((m.arena.nextSlot s, n.arena.nextSlot t) :: stack) (vals ++ q :: held)
      (m.opening s) (n.opening t) := hopen.weaken fun x hx => List.perm_middle.mem_iff.mp hx
  exact ends_inScope hopen' hglobal
    (fun i k => body_tracks ih (List.mem_cons_self ..) params body) ofFlow_values

/-- A call of a closure, once its table entry is known. -/
theorem callFunction_ends (ih : Tracked α limits fuel) (site : α) (id id' : Nat) (name : String)
    (vals : List (Value × Value)) {m n : Machine α}
    (hagree : Agree stack ((.function id name, .function id' name) :: vals ++ held) m n)
    {c d : Closure α} (hc : m.closure? id = some c) (hd : n.closure? id' = some d)
    (hparams : d.params = c.params) (hbody : d.body = c.body)
    (hopen : Agree ((m.arena.nextSlot c.scope, n.arena.nextSlot d.scope) :: stack)
      ((.function id name, .function id' name) :: vals ++ held) (m.opening c.scope)
      (n.opening d.scope)) : Ends stack held ofValue
      (call (.reclaiming limits) (fuel + 1) (held.map Prod.fst) site (.function id name)
        (vals.map Prod.fst) m)
      (call (.keeping limits) (fuel + 1) (held.map Prod.snd) site (.function id' name)
        (vals.map Prod.snd) n) := by
  rw [call, call, get_bind, get_bind, hc, hd]
  dsimp only
  -- both closures have the same parameters, so the same numbers of arguments fail
  rw [hparams, hbody, List.length_map, List.length_map, hagree.calls]
  have hsub : ∀ x ∈ held, x ∈ (.function id name, .function id' name) :: vals ++ held :=
    held_sub _
  split
  · exact tracks_fail hsub _ site m n hagree
  · show Ends stack held ofValue
      ((if limits.calls ≤ m.calls then _ else _ : Eval α Value) m)
      ((if limits.calls ≤ m.calls then _ else _ : Eval α Value) n)
    -- both machines have counted the same calls
    split
    · exact tracks_fail hsub _ site m n hagree
    · -- the body runs in scopes that correspond
      have hactivation := activation_ends ih c.params c.body _ vals hopen
        (hagree.nextSlot_ne_global c.scope)
      exact hactivation.bind (held_sub [_]) fun flow flow' l hflow =>
        result_tracks hflow (held_sub [_]) site

/-- **Calls**: the callee and the arguments are held until the body ends. -/
theorem call_tracks (ih : Tracked α limits fuel) (site : α) (q : Value × Value)
    (vals : List (Value × Value)) : Tracks stack (q :: vals ++ held) held ofValue
      (call (.reclaiming limits) (fuel + 1) (held.map Prod.fst) site q.1 (vals.map Prod.fst))
      (call (.keeping limits) (fuel + 1) (held.map Prod.snd) site q.2 (vals.map Prod.snd)) := by
  obtain ⟨f, g⟩ := q
  intro m n hagree
  cases hf : f.closure? with
  | none =>
    obtain rfl : g = f := hagree.plain (List.mem_cons_self ..) hf
    exact callPlain_tracks g hf site vals m n
      (hagree.weaken fun x hx => List.mem_cons_of_mem _ hx)
  | some id =>
    obtain ⟨name, rfl⟩ := Value.eq_function hf
    obtain ⟨id', c, d, rfl, hc, hd, hparams, hbody, hopen⟩ := hagree.callee (List.mem_cons_self ..)
    exact callFunction_ends ih site id id' name vals hagree hc hd hparams hbody hopen

/-! ## Statements -/

/-- Statements in a scope of their own, inside an active one. -/
theorem block_tracks (ih : Tracked α limits fuel) (hs : (s, t) ∈ stack) (body : List (Stmt α)) :
    Tracks stack held held ofFlow
      (inScope (.reclaiming limits) (held.map Prod.fst) s Flow.values fun inner =>
        sequence (exec (.reclaiming limits) fuel (held.map Prod.fst) inner) body)
      (inScope (.keeping limits) (held.map Prod.snd) t Flow.values fun inner =>
        sequence (exec (.keeping limits) fuel (held.map Prod.snd) inner) body) := by
  intro m n hagree
  refine ends_inScope (hagree.opening hs) (hagree.nextSlot_ne_global s) (fun i k => ?_)
    ofFlow_values
  exact sequence_track (fun b => ih.exec _ held i k b (List.mem_cons_self ..)) body

/-- **Statements**, by the kind of statement. -/
theorem exec_tracks (ih : Tracked α limits fuel) (hs : (s, t) ∈ stack) (b : Stmt α) :
    Tracks stack held held ofFlow
      (exec (.reclaiming limits) (fuel + 1) (held.map Prod.fst) s b)
      (exec (.keeping limits) (fuel + 1) (held.map Prod.snd) t b) := by
  have heval := fun e => ih.eval stack held s t e hs
  rw [exec.eq_def, exec.eq_def]
  refine Tracks.descend ?_ b.note
  cases b with
  | expr _ e => exact (heval e).bind (fun _ hx => hx) fun _ _ l _ => normal_tracks (held_sub l)
  | declare _ x e =>
    refine (optional_tracks heval e).bindValue fun v w => ?_
    have hdeclare : Tracks stack ((v, w) :: held) held ofEqual
        (modify fun m => m.declare s x v : Eval α PUnit) (modify fun m => m.declare t x w) :=
      tracks_modify (held_sub [(v, w)]) fun m n hagree =>
        hagree.declare hs (List.mem_cons_self ..) x
    exact hdeclare.bind (fun _ hx => hx) fun _ _ l _ => normal_tracks (held_sub l)
  | print _ args =>
    refine (texts_track heval args).bind (fun _ hx => hx) fun parts parts' l hsame => ?_
    -- the texts are the same, and so is the line
    obtain ⟨rfl, rfl⟩ := hsame
    have hprint : Tracks stack held held ofEqual
        (modify fun m => m.printSegment (" ".intercalate parts) : Eval α PUnit)
        (modify fun m => m.printSegment (" ".intercalate parts)) :=
      tracks_modify (fun _ hx => hx) fun m n hagree =>
        hagree.withCounters (·.push (" ".intercalate parts)) id id
    exact hprint.bind (fun _ hx => hx) fun _ _ l _ => normal_tracks (held_sub l)
  | block _ body => exact block_tracks ih hs body
  | cond _ condition consequent alternative =>
    refine (heval condition).bindValue fun v w => ?_
    -- values that correspond are alike in truth
    refine tracks_branch v w (block_tracks ih hs consequent) ?_
    cases alternative with
    | none => exact normal_tracks fun _ hx => hx
    | some branch => exact ih.exec stack held s t branch hs
  | loop _ condition body => exact ih.turns stack held s t condition body hs
  | function _ f params body =>
    refine (defineFunction_tracks hs f params body).bind (fun _ hx => hx) fun _ _ l _ => ?_
    exact normal_tracks (held_sub l)
  | ret _ e =>
    refine (optional_tracks heval e).bindValue fun v w => ?_
    exact tracks_pure (b := Flow.returning v) (c := Flow.returning w) (l := [(v, w)]) rfl
      fun _ hx => hx
  | breakLoop _ =>
    exact tracks_pure (b := Flow.breaking) (c := Flow.breaking) (l := []) rfl fun _ hx => hx
  | continueLoop _ =>
    exact tracks_pure (b := Flow.continuing) (c := Flow.continuing) (l := []) rfl fun _ hx => hx

/-- **Loops**, turn by turn. -/
theorem turns_tracks (ih : Tracked α limits fuel) (hs : (s, t) ∈ stack) (condition : Expr α)
    (body : List (Stmt α)) : Tracks stack held held ofFlow
      (turns (.reclaiming limits) (fuel + 1) (held.map Prod.fst) s condition body)
      (turns (.keeping limits) (fuel + 1) (held.map Prod.snd) t condition body) := by
  rw [turns, turns]
  refine (ih.eval stack held s t condition hs).bindValue fun v w => ?_
  refine tracks_branch v w ?_ (normal_tracks fun _ hx => hx)
  refine (block_tracks ih hs body).bind (fun _ hx => hx) fun flow flow' l hflow => ?_
  -- the next turn has one step less to go
  have hturn := ih.turns stack held s t condition body hs
  rcases ofFlow_cases hflow with
    ⟨rfl, rfl, rfl⟩ | ⟨rfl, rfl, rfl⟩ | ⟨rfl, rfl, rfl⟩ | ⟨v, w, rfl, rfl, rfl⟩
  · exact hturn
  · exact normal_tracks fun _ hx => hx
  · exact hturn
  · exact tracks_pure (b := Flow.returning v) (c := Flow.returning w) hflow fun _ hx => hx

/-- **Every step of a run tracks itself**, under any bound on steps. -/
theorem tracked (α : Type) (limits : Limits) (fuel : Nat) : Tracked α limits fuel := by
  induction fuel with
  | zero =>
    refine ⟨fun stack held s t e _ => ?_, fun stack held site q vals => ?_,
      fun stack held s t b _ => ?_, fun stack held s t c body _ => ?_⟩
    · -- out of steps, on both sides
      rw [eval, eval]
      exact tracks_throw (fun _ hx => hx) _
    · rw [call, call]
      exact tracks_throw (held_sub (q :: vals)) _
    · rw [exec, exec]
      exact tracks_throw (fun _ hx => hx) _
    · rw [turns, turns]
      exact tracks_throw (fun _ hx => hx) _
  | succ fuel ih =>
    exact ⟨fun _ _ _ _ e hs => eval_tracks ih hs e,
      fun _ _ site q vals => call_tracks ih site q vals, fun _ _ _ _ b hs => exec_tracks ih hs b,
      fun _ _ _ _ c body hs => turns_tracks ih hs c body⟩

end Eval

end Scriptlet
