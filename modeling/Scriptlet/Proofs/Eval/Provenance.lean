/-
  Provenance: every function value stands for the closure it was made with.

  1. **In step** (`Watched.Abreast`) — a watched computation ends alike on a machine that reclaims
     and on one that does not, as simulation says of it unwatched.
  2. **Attendance** (`Watched.Attends`) — two computations started on machines that agree pass
     points that are genuine one by one, lose nothing of the record, and do not fail for a missing
     closure.
  3. **Rules** — one for each way to put computations together; how a first part ends is known from
     simulation.
  4. **The crux (`attending`)** — by induction on the bound on steps, every expression, call,
     statement and loop attends itself.
  5. **The result (`points_genuine`)** — at every point of any programs, run one after another on
     one machine, no closure dangles.
-/
import Scriptlet.Proofs.Eval.Reclamation
import Scriptlet.Proofs.Eval.Record

namespace Scriptlet

variable {α β γ : Type}

namespace Watched

open Machine (Agree)
open Watch (Recorded)
open Eval (arguments texts followed sequence optional operation Ends Tracks Correspondence tracked
  ofValue ofValues ofEqual ofFlow ofFlow_cases ofFlow_values held_sub)

variable {limits : Limits} {stack : List (ScopeId × ScopeId)} {fuel : Nat}
  {pre mid held : List (Value × Value)} {s t : ScopeId} {frames : List (Frame α)}

/-! ## In step -/

/-- Started on machines that agree, with the pairs `pre` at hand, two watched computations end in
    the same way, with the pairs `held` still at hand. -/
def Abreast (stack : List (ScopeId × ScopeId)) (pre held : List (Value × Value))
    (R : Correspondence β) (q q' : Watched α β) : Prop :=
  ∀ w w', Agree stack pre w.machine w'.machine → Ends stack held R (seen (q w)) (seen (q' w'))

section Abreast

variable {R : Correspondence β} {p p' : Eval α β} {q q' : Watched α β}

/-- What simulation says of two computations holds of them under watch. -/
theorem abreast_of_tracks (h : Tracks stack pre held R p p') (hq : Shows q p) (hq' : Shows q' p') :
    Abreast stack pre held R q q' := by
  intro w w' hagree
  rw [hq w, hq' w']
  exact h w.machine w'.machine hagree

/-- The two ways in which watched computations end together. -/
theorem ends_cases {r r' : EStateM.Result (Halt α) (Watch α) β}
    (h : Ends stack held R (seen r) (seen r')) :
    (∃ b w c w' l, r = .ok b w ∧ r' = .ok c w' ∧ R b c l ∧
        Agree stack (l ++ held) w.machine w'.machine) ∨
      ∃ e w w', r = .error e w ∧ r' = .error e w' ∧ Agree stack held w.machine w'.machine := by
  match r, r' with
  | .ok b w, .ok c w' =>
    obtain ⟨l, hR, hagree⟩ := h
    exact .inl ⟨b, w, c, w', l, rfl, rfl, hR, hagree⟩
  | .error e w, .error e' w' =>
    obtain ⟨rfl, hagree⟩ := h
    exact .inr ⟨e, w, w', rfl, rfl, hagree⟩

variable (held)

theorem eval_abreast (hs : (s, t) ∈ stack) (frames : List (Frame α)) (fuel : Nat) (e : Expr α) :
    Abreast stack held held ofValue
      (eval (.reclaiming limits) fuel (held.map Prod.fst) s frames e)
      (eval (.keeping limits) fuel (held.map Prod.snd) t frames e) :=
  abreast_of_tracks ((tracked α limits fuel).eval stack held s t e hs)
    ((shown α _ fuel).eval _ s frames e) ((shown α _ fuel).eval _ t frames e)

theorem exec_abreast (hs : (s, t) ∈ stack) (frames : List (Frame α)) (fuel : Nat) (b : Stmt α) :
    Abreast stack held held ofFlow
      (exec (.reclaiming limits) fuel (held.map Prod.fst) s frames b)
      (exec (.keeping limits) fuel (held.map Prod.snd) t frames b) :=
  abreast_of_tracks ((tracked α limits fuel).exec stack held s t b hs)
    ((shown α _ fuel).exec _ s frames b) ((shown α _ fuel).exec _ t frames b)

theorem arguments_abreast (hs : (s, t) ∈ stack) (frames : List (Frame α)) (es : List (Expr α)) :
    Abreast stack held held ofValues
      (arguments (fun held e => eval (.reclaiming limits) fuel held s frames e)
        (held.map Prod.fst) es)
      (arguments (fun held e => eval (.keeping limits) fuel held t frames e)
        (held.map Prod.snd) es) :=
  abreast_of_tracks
    (Eval.arguments_track (fun held e => (tracked α limits fuel).eval stack held s t e hs) es held)
    (arguments_show (fun held e => (shown α _ fuel).eval held s frames e) es _)
    (arguments_show (fun held e => (shown α _ fuel).eval held t frames e) es _)

theorem texts_abreast (hs : (s, t) ∈ stack) (frames : List (Frame α)) (es : List (Expr α)) :
    Abreast stack held held ofEqual
      (texts (eval (.reclaiming limits) fuel (held.map Prod.fst) s frames) es)
      (texts (eval (.keeping limits) fuel (held.map Prod.snd) t frames) es) :=
  abreast_of_tracks
    (Eval.texts_track (fun e => (tracked α limits fuel).eval stack held s t e hs) es)
    (texts_show ((shown α _ fuel).eval _ s frames) es)
    (texts_show ((shown α _ fuel).eval _ t frames) es)

theorem optional_abreast (hs : (s, t) ∈ stack) (frames : List (Frame α)) (e : Option (Expr α)) :
    Abreast stack held held ofValue
      (optional (eval (.reclaiming limits) fuel (held.map Prod.fst) s frames) e)
      (optional (eval (.keeping limits) fuel (held.map Prod.snd) t frames) e) :=
  abreast_of_tracks
    (Eval.optional_tracks (fun e => (tracked α limits fuel).eval stack held s t e hs) e)
    (optional_shows ((shown α _ fuel).eval _ s frames) e)
    (optional_shows ((shown α _ fuel).eval _ t frames) e)

theorem block_abreast (hs : (s, t) ∈ stack) (frames : List (Frame α)) (body : List (Stmt α)) :
    Abreast stack held held ofFlow
      (inScope (.reclaiming limits) (held.map Prod.fst) s Flow.values fun inner =>
        sequence (exec (.reclaiming limits) fuel (held.map Prod.fst) inner frames) body)
      (inScope (.keeping limits) (held.map Prod.snd) t Flow.values fun inner =>
        sequence (exec (.keeping limits) fuel (held.map Prod.snd) inner frames) body) :=
  abreast_of_tracks (Eval.block_tracks (tracked α limits fuel) hs body)
    (block_shows (shown α _ fuel) _ s frames body) (block_shows (shown α _ fuel) _ t frames body)

end Abreast

/-! ## Attendance -/

/-- Two watched computations have ended with no closure missing, the second being the record of the
    first. -/
structure Attended (r r' : EStateM.Result (Halt α) (Watch α) β) : Prop where
  recorded : Recorded (left r) (left r')
  callable : ∀ e, halted r = some e → e.isDangling = false

/-- Started on machines that agree, with the pairs `pre` at hand, the second being the record of the
    first, two watched computations end like this. -/
def Attends (stack : List (ScopeId × ScopeId)) (pre : List (Value × Value)) (q q' : Watched α β) :
    Prop :=
  ∀ w w', Agree stack pre w.machine w'.machine → Recorded w w' → Attended (q w) (q' w')

section Rules

variable {R : Correspondence β} {p p' : Eval α β} {q q' : Watched α β} {f g : β → Watched α γ}

/-- What is known of machines that agree may be used. -/
theorem attends_of_agree
    (h : ∀ m n, Agree (α := α) stack pre m n → Attends stack pre q q') :
    Attends stack pre q q' :=
  fun w w' hagree => h w.machine w'.machine hagree w w' hagree

/-- Fewer pairs need be at hand before. -/
theorem Attends.strengthen (h : Attends stack mid q q') (hsub : ∀ x ∈ mid, x ∈ pre) :
    Attends stack pre q q' :=
  fun w w' hagree => h w w' (hagree.weaken hsub)

theorem pure_attends {b c : β} : Attends (α := α) stack pre (pure b) (pure c) :=
  fun _ _ _ hrecorded => ⟨hrecorded, nofun⟩

theorem throw_attends {e e' : Halt α} (he : e.isDangling = false) :
    Attends stack pre (throw e : Watched α β) (throw e') := by
  refine fun _ _ _ hrecorded => ⟨hrecorded, fun _ h => ?_⟩
  cases h
  exact he

/-- What leaves the machine as it is passes no points. -/
theorem Avoids.attends (h : Avoids Halt.isDangling p) :
    Attends stack pre (quiet p) (quiet p') := by
  intro w w' _ hrecorded
  refine ⟨?_, fun e herror => ?_⟩
  · rw [left_quiet, left_quiet]
    exact hrecorded
  · unfold quiet at herror
    cases hp : p w.machine with
    | ok b m => rw [hp] at herror; exact nomatch herror
    | error e' m =>
      rw [hp] at herror
      cases herror
      exact h _ _ _ hp

theorem fail_attends {cause cause' : RuntimeFault} (hcause : cause.isDangling = false)
    (site : α) : Attends stack pre (quiet (Eval.fail cause site : Eval α β))
      (quiet (Eval.fail cause' site)) :=
  (fail_avoids hcause).attends

/-- Operators and built-in functions never miss a closure. -/
theorem lift_attends {r r' : Except RuntimeFault β}
    (hr : ∀ cause, r = .error cause → cause.blamesOperands = true) (site : α) :
    Attends stack pre (quiet (Eval.lift site r)) (quiet (Eval.lift site r')) :=
  (lift_avoids fun cause h => RuntimeFault.not_dangling (hr cause h)).attends

/-- A change of the machine, before a result that is known. -/
theorem change_attends {f g : Machine α → Machine α} {b c : β}
    (h : ∀ m n, Agree stack pre m n → n.Kept (g n)) :
    Attends stack pre (do change f; return b) (do change g; return c) := by
  intro w w' hagree hrecorded
  have hchanged : Recorded (w.change f) (w'.change g) := hrecorded.step rfl rfl (h _ _ hagree)
  exact ⟨hchanged, nofun⟩

/-- A computation on machines that were prepared alike. -/
theorem Attends.prepared (h : Attends stack mid q q') {f g : Machine α → Machine α}
    (hagree : ∀ m n, Agree stack pre m n → Agree stack mid (f m) (g n))
    (hkept : ∀ n : Machine α, n.Kept (g n)) :
    Attends stack pre (do change f; q) (do change g; q') :=
  fun w w' hstart hrecorded => h (w.change f) (w'.change g) (hagree _ _ hstart)
    (hrecorded.step rfl rfl (hkept w'.machine))

/-- Jumps are no points. -/
theorem Attends.noted (h : Attends stack pre q q') (j j' : Jump α) :
    Attends stack pre (do note j; q) (do note j'; q') :=
  fun w w' hagree hrecorded => h (w.note j) (w'.note j') hagree
    (hrecorded.step rfl rfl (.refl w'.machine))

theorem Attends.landed (h : Attends stack pre q q') (frames : List (Frame α)) {flow flow' : Flow}
    {l : List (Value × Value)} (hflow : ofFlow flow flow' l) :
    Attends stack pre (do land frames flow; q) (do land frames flow'; q') := by
  rcases ofFlow_cases hflow with
    ⟨rfl, rfl, rfl⟩ | ⟨rfl, rfl, rfl⟩ | ⟨rfl, rfl, rfl⟩ | ⟨v, w, rfl, rfl, rfl⟩
  · exact h
  all_goals exact h.noted _ _

/-- **One computation after another**: how the first ends is known from simulation. -/
theorem Attended.bind {w w' : Watch α} (h : Attended (q w) (q' w'))
    (hends : Ends stack mid R (seen (q w)) (seen (q' w')))
    (hnext : ∀ b c l, R b c l → Attends stack (l ++ mid) (f b) (g c)) :
    Attended ((q >>= f) w) ((q' >>= g) w') := by
  obtain ⟨hrecorded, hcallable⟩ := h
  show Attended (EStateM.bind q f w) (EStateM.bind q' g w')
  unfold EStateM.bind
  rcases ends_cases hends with ⟨b, v, c, v', l, hq, hq', hR, hagree⟩ | ⟨e, v, v', hq, hq', -⟩
  · rw [hq, hq'] at hrecorded
    rw [hq, hq']
    exact hnext b c l hR v v' hagree hrecorded
  · rw [hq, hq'] at hrecorded
    rw [hq] at hcallable
    rw [hq, hq']
    exact ⟨hrecorded, hcallable⟩

theorem Attends.bind (h : Attends stack pre q q') (habreast : Abreast stack pre mid R q q')
    (hnext : ∀ b c l, R b c l → Attends stack (l ++ mid) (f b) (g c)) :
    Attends stack pre (q >>= f) (q' >>= g) :=
  fun w w' hagree hrecorded =>
    (h w w' hagree hrecorded).bind (habreast w w' hagree) hnext

/-- A value, and what is done with it. -/
theorem Attends.bindValue {q q' : Watched α Value} {f g : Value → Watched α γ}
    (h : Attends stack pre q q') (habreast : Abreast stack pre held ofValue q q')
    (hnext : ∀ v w, Attends stack ((v, w) :: held) (f v) (g w)) :
    Attends stack pre (q >>= f) (q' >>= g) := by
  refine h.bind habreast fun v w l hvalue => ?_
  obtain rfl : l = [(v, w)] := hvalue
  exact hnext v w

/-- A choice by a value. -/
theorem attends_branch {x x' : Watched α β} (v w : Value) (hthen : Attends stack held q q')
    (helse : Attends stack held x x') :
    Attends stack ((v, w) :: held) (if v.isTruthy then q else x) (if w.isTruthy then q' else x') := by
  refine attends_of_agree fun m n hagree => ?_
  have htruth : w.isTruthy = v.isTruthy := (hagree.value (List.mem_cons_self ..)).2.2
  rw [htruth]
  split
  · exact hthen.strengthen (held_sub [(v, w)])
  · exact helse.strengthen (held_sub [(v, w)])

/-- A part inside a change of a counter that is undone on every way out. -/
theorem Attends.between (h : Attends stack held q q') (before after : Machine α → Machine α)
    (hagree : ∀ m n, Agree stack held m n → Agree stack held (before m) (before n))
    (hbefore : ∀ n : Machine α, n.Kept (before n)) (hafter : ∀ n : Machine α, n.Kept (after n)) :
    Attends stack held (between before after q) (between before after q') := by
  refine Attends.prepared (fun w w' hstart hrecorded => ?_) hagree hbefore
  obtain ⟨hend, hcallable⟩ := h w w' hstart hrecorded
  refine ⟨?_, fun e herror => hcallable e ?_⟩
  · rw [left_always, left_always]
    exact hend.step rfl rfl (hafter _)
  · rwa [halted_always] at herror

theorem Attends.descend (h : Attends stack held q q') (site : α) :
    Attends stack held (descend (.reclaiming limits) site q)
      (descend (.keeping limits) site q') := by
  intro w w' hagree
  show Recorded w w' →
    Attended ((if w.machine.depth < limits.depth then _ else _ : Watched α β) w)
      ((if w'.machine.depth < limits.depth then _ else _ : Watched α β) w')
  -- both machines have the same depth, so the limit stops both runs or neither
  rw [hagree.depth]
  split
  · refine h.between (fun m => { m with depth := m.depth + 1 })
      (fun m => { m with depth := m.depth - 1 }) (fun m n hagree => ?_) (fun n => ?_) (fun n => ?_)
      w w' hagree
    · -- a level is counted, which keeps the machines in agreement
      exact hagree.withCounters id (· + 1) id
    · exact .of_links (fun _ => rfl) rfl rfl
    · exact .of_links (fun _ => rfl) rfl rfl
  · exact fail_attends rfl site w w' hagree

theorem Attends.inCall (h : Attends stack held q q') :
    Attends stack held (inCall q) (inCall q') := by
  refine h.between (fun m => { m with calls := m.calls + 1 })
    (fun m => { m with calls := m.calls - 1 }) (fun m n hagree => ?_) (fun n => ?_) (fun n => ?_)
  · exact hagree.withCounters id id (· + 1)
  · exact .of_links (fun _ => rfl) rfl rfl
  · exact .of_links (fun _ => rfl) rfl rfl

/-- A scope of its own. -/
theorem attended_inScope {w w' : Watch α} {q q' : ScopeId → Watched α β}
    {values values' : List Value} {needed : β → List Value} (hrecorded : Recorded w w')
    (hroot : w'.machine.arena.Rooted)
    (hopen : Agree ((w.machine.arena.nextSlot s, w'.machine.arena.nextSlot t) :: stack) pre
      (w.machine.opening s) (w'.machine.opening t))
    (h : ∀ i k, Attends ((i, k) :: stack) pre (q i) (q' k)) :
    Attended (inScope (.reclaiming limits) values s needed q w)
      (inScope (.keeping limits) values' t needed q' w') := by
  -- the new scope has a closed body of its own, and older ones are kept
  have hopened : Recorded (w.change (·.opening s)) (w'.change (·.opening t)) :=
    hrecorded.step rfl rfl (w'.machine.kept_opening hroot t)
  obtain ⟨hend, hcallable⟩ := h _ _ _ _ hopen hopened
  obtain ⟨freed, hleft⟩ := left_inScope (.reclaiming limits) values s needed q w
  obtain ⟨freed', hleft'⟩ := left_inScope (.keeping limits) values' t needed q' w'
  -- ending the scope takes no closure from the machine that frees nothing
  refine ⟨?_, fun e herror => hcallable e ?_⟩
  · rw [hleft, hleft']
    exact hend.step rfl rfl (Machine.kept_endScope limits freed' _ _)
  · rwa [halted_inScope] at herror

theorem seen_returning (needed : β → List Value) (values : List Value) (scope : ScopeId)
    (q : Watched α β) (w : Watch α) : seen (returning needed values scope q w) = seen (q w) := by
  unfold Watched.returning
  cases q w <;> rfl

/-- **The point at which a part returns is genuine**, with the values it returns. -/
theorem Attends.returning (h : Attends stack pre q q') {needed : β → List Value}
    (habreast : Abreast stack pre held R (returning needed (held.map Prod.fst) s q)
      (returning needed (held.map Prod.snd) t q'))
    (hneeded : ∀ {b c l}, R b c l → needed b = l.map Prod.fst ∧ needed c = l.map Prod.snd)
    (hs : (s, t) ∈ stack) :
    Attends stack pre (returning needed (held.map Prod.fst) s q)
      (returning needed (held.map Prod.snd) t q') := by
  intro w w' hagree hrecorded
  have hends := habreast w w' hagree
  rw [seen_returning, seen_returning] at hends
  obtain ⟨hend, hcallable⟩ := h w w' hagree hrecorded
  unfold Watched.returning
  rcases ends_cases hends with ⟨b, v, c, v', l, hq, hq', hR, hagree'⟩ | ⟨e, v, v', hq, hq', hagree'⟩
  · -- the part returns: what it hands on is held at this point
    obtain ⟨hb, hc⟩ := hneeded hR
    have hgenuine := hagree'.genuine hs none nofun
    rw [List.map_append, List.map_append, ← hb, ← hc] at hgenuine
    rw [hq, hq'] at hend
    rw [hq, hq']
    exact ⟨hend.point hgenuine, nofun⟩
  · -- the part fails: its fault names no closure that is gone
    rw [hq] at hcallable
    have hgenuine := hagree'.genuine hs (some e) hcallable
    rw [hq, hq'] at hend
    rw [hq, hq']
    exact ⟨hend.point hgenuine, hcallable⟩

end Rules

/-! ## Expressions -/

/-- Everything attends itself under a bound on steps. -/
structure Attending (α : Type) (limits : Limits) (fuel : Nat) : Prop where
  eval : ∀ stack held s t frames (e : Expr α), (s, t) ∈ stack → Attends stack held
    (eval (.reclaiming limits) fuel (held.map Prod.fst) s frames e)
    (eval (.keeping limits) fuel (held.map Prod.snd) t frames e)
  call : ∀ stack held frames (site : α) q vals, Attends stack (q :: vals ++ held)
    (call (.reclaiming limits) fuel (held.map Prod.fst) frames site q.1 (vals.map Prod.fst))
    (call (.keeping limits) fuel (held.map Prod.snd) frames site q.2 (vals.map Prod.snd))
  exec : ∀ stack held s t frames (b : Stmt α), (s, t) ∈ stack → Attends stack held
    (exec (.reclaiming limits) fuel (held.map Prod.fst) s frames b)
    (exec (.keeping limits) fuel (held.map Prod.snd) t frames b)
  turns : ∀ stack held s t frames (c : Expr α) body, (s, t) ∈ stack → Attends stack held
    (turns (.reclaiming limits) fuel (held.map Prod.fst) s frames c body)
    (turns (.keeping limits) fuel (held.map Prod.snd) t frames c body)

section Parts

theorem ofValue_alone {v w : Value} {l : List (Value × Value)} (h : ofValue v w l) :
    alone v = l.map Prod.fst ∧ alone w = l.map Prod.snd := by
  obtain rfl : l = [(v, w)] := h
  exact ⟨rfl, rfl⟩

variable (ih : Attending α limits fuel)
include ih

/-- Arguments from left to right; each value stays at hand while the others are evaluated. -/
theorem arguments_attend (hs : (s, t) ∈ stack) (frames : List (Frame α)) (es : List (Expr α))
    (held : List (Value × Value)) : Attends stack held
      (arguments (fun held e => eval (.reclaiming limits) fuel held s frames e)
        (held.map Prod.fst) es)
      (arguments (fun held e => eval (.keeping limits) fuel held t frames e)
        (held.map Prod.snd) es) := by
  induction es generalizing held with
  | nil => exact pure_attends
  | cons e rest ihrest =>
    have hfirst := ih.eval stack held s t frames e hs
    refine hfirst.bindValue (eval_abreast held hs frames fuel e) fun v w => ?_
    exact (ihrest ((v, w) :: held)).bind (arguments_abreast ((v, w) :: held) hs frames rest)
      fun _ _ _ _ => pure_attends

theorem texts_attend (hs : (s, t) ∈ stack) (frames : List (Frame α)) (es : List (Expr α)) :
    Attends stack held (texts (eval (.reclaiming limits) fuel (held.map Prod.fst) s frames) es)
      (texts (eval (.keeping limits) fuel (held.map Prod.snd) t frames) es) := by
  induction es with
  | nil => exact pure_attends
  | cons e rest ihrest =>
    have hfirst := ih.eval stack held s t frames e hs
    refine hfirst.bindValue (eval_abreast held hs frames fuel e) fun v w => ?_
    refine Attends.strengthen ?_ (held_sub [(v, w)])
    exact ihrest.bind (texts_abreast held hs frames rest) fun _ _ _ _ => pure_attends

theorem optional_attends (hs : (s, t) ∈ stack) (frames : List (Frame α)) (e : Option (Expr α)) :
    Attends stack held (optional (eval (.reclaiming limits) fuel (held.map Prod.fst) s frames) e)
      (optional (eval (.keeping limits) fuel (held.map Prod.snd) t frames) e) := by
  cases e with
  | none => exact pure_attends
  | some e => exact ih.eval stack held s t frames e hs

theorem sequence_attends (hs : (s, t) ∈ stack) (frames : List (Frame α)) (body : List (Stmt α)) :
    Attends stack held (sequence (exec (.reclaiming limits) fuel (held.map Prod.fst) s frames) body)
      (sequence (exec (.keeping limits) fuel (held.map Prod.snd) t frames) body) := by
  induction body with
  | nil => exact pure_attends
  | cons b rest ihrest =>
    have hfirst := ih.exec stack held s t frames b hs
    refine hfirst.bind (exec_abreast held hs frames fuel b) fun flow flow' l hflow => ?_
    rcases ofFlow_cases hflow with
      ⟨rfl, rfl, rfl⟩ | ⟨rfl, rfl, rfl⟩ | ⟨rfl, rfl, rfl⟩ | ⟨v, w, rfl, rfl, rfl⟩
    · exact ihrest
    all_goals exact pure_attends

theorem operation_attends (hs : (s, t) ∈ stack) (frames : List (Frame α)) (op : Operator)
    (left right : Expr α) (site : α) : Attends stack held
      (operation (fun held e => eval (.reclaiming limits) fuel held s frames e)
        (fun op l r => quiet (Eval.lift site (op.apply l r))) (held.map Prod.fst) op left right)
      (operation (fun held e => eval (.keeping limits) fuel held t frames e)
        (fun op l r => quiet (Eval.lift site (op.apply l r))) (held.map Prod.snd) op left right) := by
  have hleft := ih.eval stack held s t frames left hs
  refine hleft.bindValue (eval_abreast held hs frames fuel left) fun v w => ?_
  have hright := ih.eval stack ((v, w) :: held) s t frames right hs
  cases op with
  | logical op =>
    refine attends_of_agree fun m n hagree => ?_
    -- values that correspond are alike in truth, so both runs decide alike
    have htruth : w.isTruthy = v.isTruthy := (hagree.value (List.mem_cons_self ..)).2.2
    have hdecided : op.decidedBy w = op.decidedBy v := by
      cases op <;> simp only [LogicalOp.decidedBy, htruth]
    dsimp only
    rw [hdecided]
    split
    · exact pure_attends
    · exact hright
  | binary op =>
    -- the left value is held while the right one is evaluated
    refine hright.bind (eval_abreast ((v, w) :: held) hs frames fuel right) fun v' w' _ _ => ?_
    exact lift_attends (fun cause => BinaryOp.blames_operands) site

theorem eval_attends (hs : (s, t) ∈ stack) (frames : List (Frame α)) (e : Expr α) :
    Attends stack held
      (eval (.reclaiming limits) (fuel + 1) (held.map Prod.fst) s frames e)
      (eval (.keeping limits) (fuel + 1) (held.map Prod.snd) t frames e) := by
  have hparts := fun e => ih.eval stack held s t frames e hs
  -- the two runs of the whole expression end abreast, which shows the point at its end
  have hwhole : Abreast stack held held ofValue
      (eval (.reclaiming limits) (fuel + 1) (held.map Prod.fst) s frames e)
      (eval (.keeping limits) (fuel + 1) (held.map Prod.snd) t frames e) :=
    eval_abreast held hs frames (fuel + 1) e
  rw [eval.eq_def, eval.eq_def] at hwhole ⊢
  refine Attends.returning (Attends.descend ?_ e.note) hwhole ofValue_alone hs
  cases e with
  | literal _ v => exact pure_attends
  | name site x => exact (lookUp_avoids rfl).attends
  | unary site op e =>
    refine (hparts e).bindValue (eval_abreast held hs frames fuel e) fun v w => ?_
    exact lift_attends (fun cause => UnaryOp.blames_operands) site
  | operation site op left right => exact operation_attends ih hs frames op left right site
  | assign _ x e =>
    refine (hparts e).bindValue (eval_abreast held hs frames fuel e) fun v w => ?_
    -- an assignment makes no closure and frees none
    exact change_attends fun m n _ => n.kept_assign t x w
  | call site callee args =>
    refine (hparts callee).bindValue (eval_abreast held hs frames fuel callee) fun f g => ?_
    refine (arguments_attend ih hs frames args ((f, g) :: held)).bind
      (arguments_abreast ((f, g) :: held) hs frames args) fun vs ws vals hvalues => ?_
    obtain ⟨rfl, rfl⟩ := hvalues
    -- the callee is held before the arguments here, behind them in the call
    refine (ih.call stack held frames site (f, g) vals).strengthen fun x hx => ?_
    exact List.perm_middle.mem_iff.mpr hx

/-! ## Calls -/

omit ih in
/-- A call of a value that is no closure. -/
theorem callPlain_attends (frames : List (Frame α)) (f : Value) (hplain : f.closure? = none)
    (site : α) (vals : List (Value × Value)) : Attends stack (vals ++ held)
      (call (.reclaiming limits) (fuel + 1) (held.map Prod.fst) frames site f (vals.map Prod.fst))
      (call (.keeping limits) (fuel + 1) (held.map Prod.snd) frames site f
        (vals.map Prod.snd)) := by
  rw [call.eq_def, call.eq_def]
  cases f with
  | builtin b =>
    have havoids : Avoids Halt.isDangling (Eval.callBuiltin site b (vals.map Prod.fst)) :=
      callBuiltin_avoids (fun _ => RuntimeFault.not_dangling) fun _ _ _ => rfl
    exact havoids.attends
  | nil | bool _ | integer _ | float _ | str _ => exact fail_attends rfl site
  | function id name => exact absurd hplain (by simp [Value.closure?])

/-- The body of a call: the arguments are bound first. -/
theorem body_attends (hs : (s, t) ∈ stack) (frames : List (Frame α)) (params : List String)
    (body : List (Stmt α)) {vals : List (Value × Value)} :
    Attends stack (vals ++ held)
      (do
        change (Eval.bindParams s params (vals.map Prod.fst))
        inCall (sequence (exec (.reclaiming limits) fuel (held.map Prod.fst) s frames) body))
      (do
        change (Eval.bindParams t params (vals.map Prod.snd))
        inCall (sequence (exec (.keeping limits) fuel (held.map Prod.snd) t frames) body)) := by
  refine (sequence_attends ih hs frames body).inCall.prepared (fun m n hagree => ?_)
    fun n => Machine.kept_bindParams t params _ n
  have hbound := Eval.agree_bindParams hs params (fun x hx => List.mem_append_left held hx) hagree
  exact hbound.weaken (held_sub vals)

omit ih in
/-- What a call gives, from how its body ended; the jump lands first. -/
theorem result_attends (frames : List (Frame α)) {flow flow' : Flow} {l : List (Value × Value)}
    (h : ofFlow flow flow' l) (site : α) :
    Attends stack pre (do land frames flow; quiet (Eval.result site flow))
      (do land frames flow'; quiet (Eval.result site flow')) := by
  refine Attends.landed (Avoids.attends ?_) frames h
  cases flow with
  | normal => exact pure_avoids _
  | returning v => exact pure_avoids v
  | breaking | continuing => exact fail_avoids rfl

/-- A call of a closure, once its table entry is known. -/
theorem callFunction_attended (frames : List (Frame α)) (site : α) (id id' : Nat) (name : String)
    (vals : List (Value × Value)) {w w' : Watch α} (hrecorded : Recorded w w')
    (hagree : Agree stack ((.function id name, .function id' name) :: vals ++ held) w.machine
      w'.machine) {c d : Closure α} (hc : w.machine.closure? id = some c)
    (hd : w'.machine.closure? id' = some d) (hparams : d.params = c.params)
    (hbody : d.body = c.body)
    (hopen : Agree
      ((w.machine.arena.nextSlot c.scope, w'.machine.arena.nextSlot d.scope) :: stack)
      ((.function id name, .function id' name) :: vals ++ held) (w.machine.opening c.scope)
      (w'.machine.opening d.scope)) : Attended
      (call (.reclaiming limits) (fuel + 1) (held.map Prod.fst) frames site (.function id name)
        (vals.map Prod.fst) w)
      (call (.keeping limits) (fuel + 1) (held.map Prod.snd) frames site (.function id' name)
        (vals.map Prod.snd) w') := by
  rw [call, call, machine_bind, machine_bind, hc, hd]
  dsimp only
  rw [hparams, hbody, List.length_map, List.length_map, hagree.calls]
  split
  · exact fail_attends rfl site w w' hagree hrecorded
  · show Attended ((if limits.calls ≤ w.machine.calls then _ else _ : Watched α Value) w)
      ((if limits.calls ≤ w.machine.calls then _ else _ : Watched α Value) w')
    split
    · exact fail_attends rfl site w w' hagree hrecorded
    · have hends := Eval.activation_ends (tracked α limits fuel) c.params c.body
        (.function id name, .function id' name) vals hopen (hagree.nextSlot_ne_global c.scope)
      have hshows := activation_shows (shown α (.reclaiming limits) fuel)
        (.function id name :: held.map Prod.fst) (.call c.body :: frames) c (vals.map Prod.fst) w
      have hshows' := activation_shows (shown α (.keeping limits) fuel)
        (.function id' name :: held.map Prod.snd) (.call c.body :: frames) d (vals.map Prod.snd) w'
      rw [hparams, hbody] at hshows'
      rw [← hshows, ← hshows'] at hends
      -- the callee is held until the scope of the call ends
      have hopen' := hopen.weaken fun x hx => List.perm_middle.mem_iff.mp hx
      refine Attended.bind ?_ hends fun flow flow' l hflow => result_attends _ hflow site
      exact attended_inScope hrecorded hagree.rooted hopen' fun i k =>
        body_attends ih (List.mem_cons_self ..) (.call c.body :: frames) c.params c.body

theorem call_attends (frames : List (Frame α)) (site : α) (q : Value × Value)
    (vals : List (Value × Value)) : Attends stack (q :: vals ++ held)
      (call (.reclaiming limits) (fuel + 1) (held.map Prod.fst) frames site q.1 (vals.map Prod.fst))
      (call (.keeping limits) (fuel + 1) (held.map Prod.snd) frames site q.2
        (vals.map Prod.snd)) := by
  obtain ⟨f, g⟩ := q
  intro w w' hagree hrecorded
  cases hf : f.closure? with
  | none =>
    -- a value that names no closure is the same on both machines
    obtain rfl : g = f := hagree.plain (List.mem_cons_self ..) hf
    exact callPlain_attends frames g hf site vals w w'
      (hagree.weaken fun x hx => List.mem_cons_of_mem _ hx) hrecorded
  | some id =>
    obtain ⟨name, rfl⟩ := Value.eq_function hf
    -- the closures correspond: same parameters, same body, and scopes that correspond
    obtain ⟨id', c, d, rfl, hc, hd, hparams, hbody, hopen⟩ := hagree.callee (List.mem_cons_self ..)
    exact callFunction_attended ih frames site id id' name vals hrecorded hagree hc hd hparams
      hbody hopen

/-! ## Statements -/

/-- Statements in a scope of their own, inside an active one. -/
theorem block_attends (hs : (s, t) ∈ stack) (frames : List (Frame α)) (body : List (Stmt α)) :
    Attends stack held
      (inScope (.reclaiming limits) (held.map Prod.fst) s Flow.values fun inner =>
        sequence (exec (.reclaiming limits) fuel (held.map Prod.fst) inner frames) body)
      (inScope (.keeping limits) (held.map Prod.snd) t Flow.values fun inner =>
        sequence (exec (.keeping limits) fuel (held.map Prod.snd) inner frames) body) :=
  fun _ _ hagree hrecorded => attended_inScope hrecorded hagree.rooted (hagree.opening hs)
    fun _ _ => sequence_attends ih (List.mem_cons_self ..) frames body

theorem exec_attends (hs : (s, t) ∈ stack) (frames : List (Frame α)) (b : Stmt α) :
    Attends stack held
      (exec (.reclaiming limits) (fuel + 1) (held.map Prod.fst) s frames b)
      (exec (.keeping limits) (fuel + 1) (held.map Prod.snd) t frames b) := by
  have hparts := fun e => ih.eval stack held s t frames e hs
  -- the two runs of the whole statement end abreast, which shows the point at its end
  have hwhole : Abreast stack held held ofFlow
      (exec (.reclaiming limits) (fuel + 1) (held.map Prod.fst) s frames b)
      (exec (.keeping limits) (fuel + 1) (held.map Prod.snd) t frames b) :=
    exec_abreast held hs frames (fuel + 1) b
  rw [exec.eq_def, exec.eq_def] at hwhole ⊢
  refine Attends.returning (Attends.descend ?_ b.note) hwhole ofFlow_values hs
  cases b with
  | expr _ e =>
    exact (hparts e).bind (eval_abreast held hs frames fuel e) fun _ _ _ _ => pure_attends
  | declare _ x e =>
    refine (optional_attends ih hs frames e).bind (optional_abreast held hs frames e)
      fun v w l _ => ?_
    exact change_attends fun m n _ => n.kept_declare t x w
  | print _ args =>
    refine (texts_attend ih hs frames args).bind (texts_abreast held hs frames args)
      fun parts parts' l _ => ?_
    exact change_attends fun m n _ => .of_links (fun _ => rfl) rfl rfl
  | block _ body => exact block_attends ih hs frames body
  | cond _ condition consequent alternative =>
    refine (hparts condition).bindValue (eval_abreast held hs frames fuel condition) fun v w => ?_
    -- both runs take the same branch
    refine attends_branch v w (block_attends ih hs frames consequent) ?_
    cases alternative with
    | none => exact pure_attends
    | some branch => exact ih.exec stack held s t frames branch hs
  | loop _ condition body => exact ih.turns stack held s t frames condition body hs
  | function _ f params body =>
    refine change_attends fun m n hagree => ?_
    -- the closure is recorded where it is defined
    show n.Kept ((n.define ⟨params, body, t⟩).2.declare t f
      (.function (n.define ⟨params, body, t⟩).1 f))
    rw [Machine.define_eq]
    exact (n.kept_defined hagree.table ⟨params, body, t⟩).trans (Machine.kept_declare ..)
  | ret a e =>
    exact (optional_attends ih hs frames e).bind (optional_abreast held hs frames e)
      fun _ _ _ _ => pure_attends.noted _ _
  | breakLoop a | continueLoop a => exact pure_attends.noted _ _

theorem turns_attend (hs : (s, t) ∈ stack) (frames : List (Frame α)) (condition : Expr α)
    (body : List (Stmt α)) : Attends stack held
      (turns (.reclaiming limits) (fuel + 1) (held.map Prod.fst) s frames condition body)
      (turns (.keeping limits) (fuel + 1) (held.map Prod.snd) t frames condition body) := by
  rw [turns, turns]
  refine (ih.eval stack held s t frames condition hs).bindValue
    (eval_abreast held hs frames fuel condition) fun v w => ?_
  refine attends_branch v w ?_ pure_attends
  refine (block_attends ih hs (.loop body :: frames) body).bind
    (block_abreast held hs (.loop body :: frames) body) fun flow flow' l hflow => ?_
  -- the next turn has one step less to go
  have hturn := ih.turns stack held s t frames condition body hs
  rcases ofFlow_cases hflow with
    ⟨rfl, rfl, rfl⟩ | ⟨rfl, rfl, rfl⟩ | ⟨rfl, rfl, rfl⟩ | ⟨v, w, rfl, rfl, rfl⟩
  · exact hturn
  · exact pure_attends.noted _ _
  · exact hturn.noted _ _
  · exact pure_attends

end Parts

/-- **Every part of a run attends itself**, under any bound on steps. -/
theorem attending (α : Type) (limits : Limits) (fuel : Nat) : Attending α limits fuel := by
  induction fuel with
  -- out of steps: this halt is reported alike and names no closure
  | zero =>
    refine ⟨fun stack held s t frames e _ => ?_, fun stack held frames site q vals => ?_,
      fun stack held s t frames b _ => ?_, fun stack held s t frames c body _ => ?_⟩
    · rw [eval, eval]
      exact throw_attends rfl
    · rw [call, call]
      exact throw_attends rfl
    · rw [exec, exec]
      exact throw_attends rfl
    · rw [turns, turns]
      exact throw_attends rfl
  | succ fuel ih =>
    exact ⟨fun _ _ _ _ frames e hs => eval_attends ih hs frames e,
      fun _ _ frames site q vals => call_attends ih frames site q vals,
      fun _ _ _ _ frames b hs => exec_attends ih hs frames b,
      fun _ _ _ _ frames c body hs => turns_attend ih hs frames c body⟩

/-! ## Programs -/

theorem global_mem : (Arena.global, Arena.global) ∈ [(Arena.global, Arena.global)] :=
  List.mem_singleton.mpr rfl

/-- A statement at the top level that is no expression, before those that follow. -/
theorem topLevelStmt_attends (frames : List (Frame α)) {q : Value × Value} {rest : List (Stmt α)}
    (hrest : Attends [(Arena.global, Arena.global)] [q]
      (topLevel (.reclaiming limits) fuel frames q.1 rest)
      (topLevel (.keeping limits) fuel frames q.2 rest)) (b : Stmt α) :
    Attends [(Arena.global, Arena.global)] [q]
      (followed (exec (.reclaiming limits) fuel [q.1] Arena.global frames b)
        (topLevel (.reclaiming limits) fuel frames q.1 rest) fun flow => do
          land frames flow
          quiet (Eval.fail flow.misplaced b.note))
      (followed (exec (.keeping limits) fuel [q.2] Arena.global frames b)
        (topLevel (.keeping limits) fuel frames q.2 rest) fun flow => do
          land frames flow
          quiet (Eval.fail flow.misplaced b.note)) := by
  refine ((attending α limits fuel).exec _ [q] _ _ frames b global_mem).bind
    (exec_abreast [q] global_mem frames fuel b) fun flow flow' l hflow => ?_
  -- a jump that reaches the top level is misplaced on both sides
  rcases ofFlow_cases hflow with
    ⟨rfl, rfl, rfl⟩ | ⟨rfl, rfl, rfl⟩ | ⟨rfl, rfl, rfl⟩ | ⟨v, w, rfl, rfl, rfl⟩
  · exact hrest
  all_goals exact (fail_attends rfl b.note).noted _ _

/-- **Top-level statements attend themselves.** -/
theorem topLevel_attends (frames : List (Frame α)) (q : Value × Value)
    (statements : List (Stmt α)) : Attends [(Arena.global, Arena.global)] [q]
      (topLevel (.reclaiming limits) fuel frames q.1 statements)
      (topLevel (.keeping limits) fuel frames q.2 statements) := by
  induction statements generalizing q with
  | nil =>
    rw [topLevel, topLevel]
    exact pure_attends
  | cons b rest ih =>
    cases b with
    | expr site e =>
      rw [topLevel, topLevel]
      refine ((attending α limits fuel).eval _ [q] _ _ frames e global_mem).bindValue
        (eval_abreast [q] global_mem frames fuel e) fun v w => ?_
      -- the value before this one is not needed any more
      exact (ih (v, w)).strengthen fun x hx => List.mem_append_left [q] hx
    | _ => exact topLevelStmt_attends frames (ih q) _

/-- A program passes genuine points up to its end. -/
theorem program_attends (p : Program α) : Attends [(Arena.global, Arena.global)] [(.nil, .nil)]
    (program (.reclaiming limits) fuel p) (program (.keeping limits) fuel p) := by
  have habreast : Abreast [(Arena.global, Arena.global)] [(.nil, .nil)] [] ofValue
      (program (.reclaiming limits) fuel p) (program (.keeping limits) fuel p) :=
    abreast_of_tracks (Machine.topLevel_tracks (.nil, .nil) p.statements) (program_shows p)
      (program_shows p)
  exact (topLevel_attends [.program p.statements] (.nil, .nil) p.statements).returning habreast
    ofValue_alone global_mem

end Watched

namespace Watch

variable {w w' : Watch α}

theorem run_recorded (limits : Limits) (halike : Machine.Alike w.machine w'.machine)
    (h : Recorded w w') (fuel : Nat) (p : Program α) :
    Recorded (w.run (.reclaiming limits) fuel p).2 (w'.run (.keeping limits) fuel p).2 := by
  rw [left_run, left_run]
  exact (Watched.program_attends p w w' (halike.hold_plain rfl) h).recorded

/-- Programs one after another pass genuine points, also after faults. -/
theorem runAll_recorded (limits : Limits) (halike : Machine.Alike w.machine w'.machine)
    (h : Recorded w w') (steps : List (Nat × Program α)) :
    Recorded (w.runAll (.reclaiming limits) steps).2 (w'.runAll (.keeping limits) steps).2 := by
  induction steps generalizing w w' with
  | nil => exact h
  | cons step rest ih =>
    obtain ⟨fuel, p⟩ := step
    refine ih ?_ (run_recorded limits halike h fuel p)
    have hnext : Machine.Alike (w.machine.run (.reclaiming limits) fuel p).2
        (w'.machine.run (.keeping limits) fuel p).2 := (Machine.run_agree halike fuel p).2
    rwa [← run_eq, ← run_eq] at hnext

end Watch

namespace Machine

/-- **No closure dangles.**  Run one after another on one machine that uses slots again, any
    programs pass only points that are genuine in the record of the same run: each function value
    names the closure that its own definition made, in the scopes it was made in, and no call misses
    its closure.  In the record closures and links never change and no number becomes free, so one
    number belongs to one execution of a definition. -/
theorem points_genuine (limits : Limits) (steps : List (Nat × Program α)) :
    List.Forall₂ (fun pt record => ∃ σ φ, Point.Genuine σ φ pt record)
        (initial.points (.reclaiming limits) steps) (initial.points (.keeping limits) steps) ∧
      (initial.points (.keeping limits) steps).Pairwise
        (fun record later => record.machine.Kept later.machine) ∧
      ∀ record ∈ initial.points (.keeping limits) steps, record.machine.freeClosures = [] := by
  have hstart : Alike (Watch.start (initial : Machine α)).machine (Watch.start initial).machine :=
    agree_initial
  have h : Watch.Recorded ((Watch.start initial).runAll (.reclaiming limits) steps).2
      ((Watch.start initial).runAll (.keeping limits) steps).2 :=
    Watch.runAll_recorded limits hstart (Watch.recorded_start rfl) steps
  refine ⟨List.rel_reverse h.genuine, List.pairwise_reverse.mpr h.between, fun record hrecord => ?_⟩
  exact h.filled record (List.mem_reverse.mp hrecord)

end Machine

end Scriptlet
