/-
  Joining: two programs run one after the other, or as one program.

  In the joined program the last value of the first half is still held while the second half runs;
  between two programs nothing is.  So scopes and closures are emptied at other times, and get other
  numbers.  That nobody can tell is seen on a machine that keeps everything.

  1. **Held values** (`Unheld`) — a machine that empties no slot never asks what is held: by
     induction on the bound on steps, everything goes the same whatever is.
  2. **Halves** (`topLevel_append`, `topLevel_carry`) — the joined statements are the first half and
     then the second, and there the value carried over from the first is what a half without an
     expression ends with, and nothing else.
  3. **Machines that keep everything** (`Alike.observation_append`) — within one bound on steps both
     ways of running look the same, since they do on the machines beside them that keep everything.
  4. **The result (`finishes_append`)** — both ways come to the same end, on every machine on which
     programs have run.
-/
import Scriptlet.Proofs.Eval.Limits
import Scriptlet.Proofs.Eval.Reclamation

namespace Scriptlet

variable {α β γ : Type}

namespace Eval

variable {limits : Limits} {fuel : Nat}

/-! ## Held values -/

/-- Nothing depends on what is held, if slots are kept. -/
structure Unheld (α : Type) (limits : Limits) (fuel : Nat) : Prop where
  eval : ∀ held held' scope (e : Expr α),
    eval (.keeping limits) fuel held scope e = eval (.keeping limits) fuel held' scope e
  call : ∀ held held' (site : α) f values,
    call (.keeping limits) fuel held site f values = call (.keeping limits) fuel held' site f values
  exec : ∀ held held' scope (s : Stmt α),
    exec (.keeping limits) fuel held scope s = exec (.keeping limits) fuel held' scope s
  turns : ∀ held held' scope (c : Expr α) body,
    turns (.keeping limits) fuel held scope c body = turns (.keeping limits) fuel held' scope c body

/-- A scope that ends is only marked as no longer active. -/
theorem inScope_unheld (held held' : List Value) (parent : ScopeId) (needed : β → List Value)
    (p : ScopeId → Eval α β) :
    inScope (.keeping limits) held parent needed p =
      inScope (.keeping limits) held' parent needed p := by
  funext m
  rw [inScope_eq, inScope_eq]
  rfl

theorem arguments_unheld {eval : List Value → Expr α → Eval α Value}
    (h : ∀ held held' e, eval held e = eval held' e) (es : List (Expr α)) (held held' : List Value) :
    arguments eval held es = arguments eval held' es := by
  induction es generalizing held held' with
  | nil => rfl
  | cons e rest ih =>
    rw [arguments, arguments, h held held' e]
    refine bind_congr fun v => ?_
    rw [ih (v :: held) (v :: held')]

theorem eval_unheld (ih : Unheld α limits fuel) (held held' : List Value) (scope : ScopeId)
    (e : Expr α) :
    eval (.keeping limits) (fuel + 1) held scope e =
      eval (.keeping limits) (fuel + 1) held' scope e := by
  rw [eval.eq_def, eval.eq_def]
  refine congrArg (descend _ e.note) ?_
  cases e with
  | literal _ v => rfl
  | name site x => rfl
  | unary site op e =>
    dsimp only
    rw [ih.eval held held' scope e]
  | operation site op left right =>
    dsimp only
    rw [operation, operation, ih.eval held held' scope left]
    refine bind_congr fun l => ?_
    -- both runs hold one value more
    rw [ih.eval (l :: held) (l :: held') scope right]
  | assign _ x e =>
    dsimp only
    rw [ih.eval held held' scope e]
  | call site callee args =>
    dsimp only
    rw [ih.eval held held' scope callee]
    refine bind_congr fun f => ?_
    rw [arguments_unheld (fun held held' e => ih.eval held held' scope e) args (f :: held)
      (f :: held')]
    exact bind_congr fun values => ih.call held held' site f values

theorem call_unheld (ih : Unheld α limits fuel) (held held' : List Value) (site : α) (f : Value)
    (values : List Value) :
    call (.keeping limits) (fuel + 1) held site f values =
      call (.keeping limits) (fuel + 1) held' site f values := by
  rw [call.eq_def, call.eq_def]
  cases f with
  | builtin b => rfl
  | nil | bool _ | integer _ | float _ | str _ => rfl
  | function id name =>
    dsimp only
    refine bind_congr fun m => ?_
    cases m.closure? id with
    | none => rfl
    | some c =>
      dsimp only
      -- the body holds the callee, and what was held around the call on each side
      have hexec : ∀ scope, exec (.keeping limits) fuel (.function id name :: held) scope =
          exec (.keeping limits) fuel (.function id name :: held') (α := α) scope :=
        fun scope => funext fun s => ih.exec _ _ scope s
      simp only [hexec]
      rw [inScope_unheld (.function id name :: held) (.function id name :: held')]

/-- Statements in a scope of their own. -/
theorem block_unheld (ih : Unheld α limits fuel) (held held' : List Value) (scope : ScopeId)
    (body : List (Stmt α)) :
    (inScope (.keeping limits) held scope Flow.values fun inner =>
        sequence (exec (.keeping limits) fuel held inner) body) =
      inScope (.keeping limits) held' scope Flow.values fun inner =>
        sequence (exec (.keeping limits) fuel held' inner) body := by
  have hexec : ∀ inner, exec (.keeping limits) fuel held inner =
      exec (.keeping limits) fuel held' (α := α) inner :=
    fun inner => funext fun s => ih.exec held held' inner s
  simp only [hexec]
  exact inScope_unheld held held' scope Flow.values _

theorem exec_unheld (ih : Unheld α limits fuel) (held held' : List Value) (scope : ScopeId)
    (s : Stmt α) :
    exec (.keeping limits) (fuel + 1) held scope s =
      exec (.keeping limits) (fuel + 1) held' scope s := by
  have heval : eval (.keeping limits) fuel held scope =
      eval (.keeping limits) fuel held' (α := α) scope := funext fun e => ih.eval held held' scope e
  rw [exec.eq_def, exec.eq_def]
  refine congrArg (descend _ s.note) ?_
  cases s with
  | expr _ e =>
    dsimp only
    rw [heval]
  | declare _ x e =>
    dsimp only
    rw [heval]
  | print _ args =>
    dsimp only
    rw [heval]
  | block _ body => exact block_unheld ih held held' scope body
  | cond _ condition consequent alternative =>
    dsimp only
    rw [heval]
    refine bind_congr fun c => ?_
    rw [block_unheld ih held held' scope consequent]
    cases alternative with
    | none => rfl
    | some branch =>
      dsimp only
      rw [ih.exec held held' scope branch]
  | loop _ condition body => exact ih.turns held held' scope condition body
  | function _ f params body => rfl
  | ret _ e =>
    dsimp only
    rw [heval]
  | breakLoop _ => rfl
  | continueLoop _ => rfl

theorem turns_unheld (ih : Unheld α limits fuel) (held held' : List Value) (scope : ScopeId)
    (condition : Expr α) (body : List (Stmt α)) :
    turns (.keeping limits) (fuel + 1) held scope condition body =
      turns (.keeping limits) (fuel + 1) held' scope condition body := by
  rw [turns, turns, ih.eval held held' scope condition, block_unheld ih held held' scope body]
  simp only [ih.turns held held' scope condition body]

/-- **What is held does not matter to a machine that keeps everything.** -/
theorem unheld (α : Type) (limits : Limits) (fuel : Nat) : Unheld α limits fuel := by
  induction fuel with
  | zero => exact ⟨fun _ _ _ _ => rfl, fun _ _ _ _ _ => rfl, fun _ _ _ _ => rfl, fun _ _ _ _ _ => rfl⟩
  | succ fuel ih => exact ⟨eval_unheld ih, call_unheld ih, exec_unheld ih, turns_unheld ih⟩

end Eval

/-! ## Halves -/

def Stmt.isExpr : Stmt α → Bool
  | .expr .. => true
  | _ => false

/-- Ends with the value of the last expression among `q`, or without one with a value carried over
    from before. -/
def Outcome.carry (v : Value) (q : List (Stmt α)) : Outcome α → Outcome α
  | .value w => .value (if q.any Stmt.isExpr then w else v)
  | .fault e => .fault e
  | .outOfFuel => .outOfFuel

/-- Only the looks of the two values show. -/
theorem Outcome.ending_carry {v w : Value} {o o' : Outcome α} (hvalue : w.appearance = v.appearance)
    (hending : o'.ending = o.ending) (q : List (Stmt α)) :
    (o'.carry w q).ending = (o.carry v q).ending := by
  cases o <;> cases o' <;> simp only [ending, carry, reduceCtorEq] at hending ⊢
  case value.value a b =>
    split
    · exact hending
    · rw [hvalue]
  case fault.fault e e' => exact hending

/-- Carrying a value over brings no run to an end that is not at its end. -/
theorem Outcome.eq_outOfFuel_iff {v : Value} {q : List (Stmt α)} {o o' : Outcome α}
    (h : o'.ending = (o.carry v q).ending) : o' = .outOfFuel ↔ o = .outOfFuel := by
  cases o <;> cases o' <;> simp_all [ending, carry]

namespace Eval

variable {settings : Settings} {limits : Limits} {fuel : Nat}

/-- A statement at the top level that is no expression. -/
theorem topLevel_cons {s : Stmt α} (hs : s.isExpr = false) (last : Value) (rest : List (Stmt α)) :
    topLevel settings fuel last (s :: rest) =
      followed (exec settings fuel [last] Arena.global s) (topLevel settings fuel last rest)
        fun flow => fail flow.misplaced s.note := by
  cases s with
  | expr site e => exact absurd hs.symm Bool.false_ne_true
  | _ => rfl

theorem bind_of_ok {p : Eval α β} {f : β → Eval α γ} {m m' : Machine α} {b : β}
    (h : p m = .ok b m') : (p >>= f) m = f b m' := by
  show EStateM.bind p f m = _
  rw [EStateM.bind, h]

theorem bind_of_error {p : Eval α β} {f : β → Eval α γ} {m m' : Machine α} {e : Halt α}
    (h : p m = .error e m') : (p >>= f) m = .error e m' := by
  show EStateM.bind p f m = _
  rw [EStateM.bind, h]

/-- **The joined statements are the first half and then the second**, from the value that the first
    ends with. -/
theorem topLevel_append (last : Value) (p q : List (Stmt α)) :
    topLevel settings fuel last (p ++ q) =
      topLevel settings fuel last p >>= fun v => topLevel settings fuel v q := by
  induction p generalizing last with
  | nil =>
    rw [List.nil_append, topLevel, pure_bind]
  | cons s rest ih =>
    rw [List.cons_append]
    cases hs : s.isExpr with
    | true =>
      cases s with
      | expr site e =>
        -- the value of an expression is the last one from here on
        rw [topLevel, topLevel, bind_assoc]
        exact bind_congr fun v => ih v
      | _ => exact absurd hs Bool.false_ne_true
    | false =>
      rw [topLevel_cons hs, topLevel_cons hs, followed, followed, bind_assoc]
      refine bind_congr fun flow => ?_
      -- any other statement leaves the last value as it was
      cases flow with
      | normal => exact ih last
      -- a jump ends both, with nothing of the second half run
      | breaking | continuing | returning _ => rfl

/-- **A value carried over is what statements without an expression end with**, and changes nothing
    else if slots are kept. -/
theorem topLevel_carry (last : Value) (q : List (Stmt α)) :
    topLevel (.keeping limits) fuel last q =
      (fun v => if q.any Stmt.isExpr then v else last) <$>
        topLevel (.keeping limits) fuel .nil q := by
  induction q generalizing last with
  | nil => rfl
  | cons s rest ih =>
    rw [List.any_cons]
    cases hs : s.isExpr with
    | true =>
      -- this value takes the place of the one carried over
      rw [Bool.true_or]
      simp only [if_true, id_map']
      cases s with
      | expr site e =>
        rw [topLevel, topLevel, (unheld α limits fuel).eval [last] [.nil]]
      | _ => exact absurd hs Bool.false_ne_true
    | false =>
      rw [Bool.false_or, topLevel_cons hs, topLevel_cons hs, followed, followed, map_bind,
        (unheld α limits fuel).exec [last] [.nil]]
      refine bind_congr fun flow => ?_
      cases flow with
      | normal => exact ih last
      | breaking | continuing | returning _ => rfl

end Eval

namespace Machine

variable {settings : Settings} {limits : Limits} {fuel : Nat} {m n : Machine α}
  {p q : List (Stmt α)}

/-- A first half that comes to no value is all that runs. -/
theorem run_append_of_ne {o : Outcome α} {m₁ : Machine α}
    (hrun : m.run settings fuel ⟨p⟩ = (o, m₁)) (ho : ∀ v, o ≠ .value v) :
    m.run settings fuel ⟨p ++ q⟩ = (o, m₁) := by
  rw [← hrun]
  unfold run at hrun ⊢
  dsimp only at hrun ⊢
  rw [Eval.topLevel_append]
  cases hp : Eval.topLevel settings fuel .nil p m with
  | ok v m' =>
    rw [hp] at hrun
    exact absurd (Prod.mk.inj hrun).1.symm (ho v)
  | error e m' => rw [Eval.bind_of_error hp]

/-- After a first half that comes to a value, the second half runs as it does by itself. -/
theorem run_append_of_value {v : Value} {n₁ : Machine α}
    (hrun : n.run (.keeping limits) fuel ⟨p⟩ = (.value v, n₁)) :
    n.run (.keeping limits) fuel ⟨p ++ q⟩ =
      ((n₁.run (.keeping limits) fuel ⟨q⟩).1.carry v q, (n₁.run (.keeping limits) fuel ⟨q⟩).2) := by
  -- the first half comes to its value
  have hp : Eval.topLevel (.keeping limits) fuel .nil p n = .ok v n₁ := by
    unfold run at hrun
    split at hrun
    · next hp =>
      obtain ⟨hv, rfl⟩ := Prod.mk.inj hrun
      injection hv with hv
      rw [← hv]
      exact hp
    all_goals exact nomatch (Prod.mk.inj hrun).1
  unfold run
  dsimp only
  rw [Eval.topLevel_append, Eval.bind_of_ok hp, Eval.topLevel_carry v q, map_eq_pure_bind]
  -- the second half ends alike, whatever value it is given to start with
  cases hq : Eval.topLevel (.keeping limits) fuel .nil q n₁ with
  | ok w n₂ =>
    rw [Eval.bind_of_ok hq]
    rfl
  | error e n₂ =>
    rw [Eval.bind_of_error hq]
    cases e <;> rfl

/-! ## Machines that keep everything -/

/-- A machine on which programs have run has one that keeps everything beside it. -/
theorem exists_alike_runAll (limits : Limits) (h : Alike m n) (steps : List (Nat × Program α)) :
    ∃ n', Alike (m.runAll (.reclaiming limits) steps).2 n' := by
  induction steps generalizing m n with
  | nil => exact ⟨n, h⟩
  | cons step rest ih =>
    obtain ⟨fuel, p⟩ := step
    rw [runAll_cons]
    exact ih (run_agree h fuel p).2

/-- **Within one bound on steps**, the halves one after the other and the joined program are
    observed to do the same. -/
theorem Alike.observation_append (h : Alike m n) {v : Value} {m₁ : Machine α}
    (hrun : m.run (.reclaiming limits) fuel ⟨p⟩ = (.value v, m₁)) :
    let joined := m.run (.reclaiming limits) fuel ⟨p ++ q⟩
    let second := m₁.run (.reclaiming limits) fuel ⟨q⟩
    joined.2.observation joined.1 = second.2.observation (second.1.carry v q) := by
  intro joined second
  obtain ⟨hfirst, hbetween⟩ := @run_agree α limits m n h fuel ⟨p⟩
  rw [hrun] at hfirst hbetween
  -- on the machine that frees nothing the first half comes to a value of the same appearance
  obtain ⟨w, n₁, hkept, hvalue⟩ : ∃ w n₁,
      n.run (.keeping limits) fuel ⟨p⟩ = (.value w, n₁) ∧ w.appearance = v.appearance := by
    rcases hn : n.run (.keeping limits) fuel ⟨p⟩ with ⟨o, n₁⟩
    rw [hn] at hfirst
    cases o with
    | value w => exact ⟨w, n₁, rfl, Ending.value.inj hfirst⟩
    | fault e => exact nomatch hfirst
    | outOfFuel => exact nomatch hfirst
  rw [hkept] at hbetween
  obtain ⟨hsecond, hafter⟩ := @run_agree α limits m₁ n₁ hbetween fuel ⟨q⟩
  obtain ⟨hjoined, hend⟩ := @run_agree α limits m n h fuel ⟨p ++ q⟩
  rw [run_append_of_value hkept] at hjoined hend
  -- the programs split on the machine that frees nothing, and each side is observed like it
  calc joined.2.observation joined.1
      = (n₁.run (.keeping limits) fuel ⟨q⟩).2.observation
          ((n₁.run (.keeping limits) fuel ⟨q⟩).1.carry w q) := (Agree.observation hend hjoined).symm
    _ = second.2.observation (second.1.carry v q) :=
        Agree.observation hafter (Outcome.ending_carry hvalue hsecond q)

/-! ## The result -/

/-- **Evaluation splits at the top level.**  On a machine on which any programs have run, let the
    statements `p` come to a value.  Then `p` and `q` as one program come to an end just if `q` does
    after `p`, and are observed to do the same: with the same fault, or with the value of the last
    expression among `q`, without one with that of `p`.  A fault in `p` is all there is to see of
    the joined program, too. -/
theorem finishes_append (limits : Limits) (steps : List (Nat × Program α)) (p q : List (Stmt α)) :
    let start := (initial.runAll (.reclaiming limits) steps).2
    (∀ v m₁, start.Finishes (.reclaiming limits) ⟨p⟩ (.value v) m₁ →
      (∀ o m₂, m₁.Finishes (.reclaiming limits) ⟨q⟩ o m₂ →
        ∃ o' m', start.Finishes (.reclaiming limits) ⟨p ++ q⟩ o' m' ∧
          m'.observation o' = m₂.observation (o.carry v q)) ∧
      (∀ o' m', start.Finishes (.reclaiming limits) ⟨p ++ q⟩ o' m' →
        ∃ o m₂, m₁.Finishes (.reclaiming limits) ⟨q⟩ o m₂ ∧
          m'.observation o' = m₂.observation (o.carry v q))) ∧
    (∀ e m₁, start.Finishes (.reclaiming limits) ⟨p⟩ (.fault e) m₁ →
      start.Finishes (.reclaiming limits) ⟨p ++ q⟩ (.fault e) m₁) := by
  intro start
  obtain ⟨n, halike⟩ := exists_alike_runAll (α := α) limits agree_initial steps
  constructor
  · rintro v m₁ ⟨hvalue, fuel, hfirst⟩
    constructor
    · -- the second half finishes, and so does the joined program
      rintro o m₂ ⟨hend, fuel', hsecond⟩
      have hfirst := run_of_le hfirst hvalue (Nat.le_max_left fuel fuel')
      have hsecond := run_of_le hsecond hend (Nat.le_max_right fuel fuel')
      have hsame := halike.observation_append (q := q) hfirst
      rw [hsecond] at hsame
      refine ⟨_, _, ⟨?_, max fuel fuel', rfl⟩, hsame⟩
      exact mt (Outcome.eq_outOfFuel_iff (congrArg Observation.ending hsame)).mp hend
    · -- the joined program finishes, and so does the second half
      rintro o' m' ⟨hend, fuel', hjoined⟩
      have hfirst := run_of_le hfirst hvalue (Nat.le_max_left fuel fuel')
      have hjoined := run_of_le hjoined hend (Nat.le_max_right fuel fuel')
      have hsame := halike.observation_append (q := q) hfirst
      rw [hjoined] at hsame
      refine ⟨_, _, ⟨?_, max fuel fuel', rfl⟩, hsame⟩
      exact mt (Outcome.eq_outOfFuel_iff (congrArg Observation.ending hsame)).mpr hend
  · -- the first half fails, and so does the joined program
    rintro e m₁ ⟨hend, fuel, hfirst⟩
    exact ⟨hend, fuel, run_append_of_ne hfirst nofun⟩

/-- A function is defined.  Then its name and a block that prints leave the function as the value;
    and after a name that is not bound, nothing is printed. -/
theorem finishes_append_block :
    let defines : Program Unit := ⟨[.function () "f" [] []]⟩
    let start : Machine Unit := (initial.runAll (.reclaiming {}) [(1, defines)]).2
    let prints : List (Stmt Unit) := [.block () [.print () [.literal () (.integer 1)]]]
    (∃ o m, start.Finishes (.reclaiming {}) ⟨[.expr () (.name () "f")] ++ prints⟩ o m ∧
      (m.observation o).ending = .value ⟨.function, "<fn f>"⟩ ∧
      (m.observation o).output = ["1"]) ∧
    ∃ m, start.Finishes (.reclaiming {}) ⟨[.expr () (.name () "x")] ++ prints⟩
        (.fault ⟨.undefinedName "x", ()⟩) m ∧
      m.output = #[] := by
  intro defines start prints
  have hname : start.Finishes (.reclaiming {}) ⟨[.expr () (.name () "f")]⟩
      (.value (.function 0 "f")) start := ⟨nofun, 1, rfl⟩
  have hprints : start.Finishes (.reclaiming {}) ⟨prints⟩ (.value .nil)
      (start.run (.reclaiming {}) 3 ⟨prints⟩).2 := ⟨nofun, 3, rfl⟩
  have hunbound : start.Finishes (.reclaiming {}) ⟨[.expr () (.name () "x")]⟩
      (.fault ⟨.undefinedName "x", ()⟩) start := ⟨nofun, 1, rfl⟩
  constructor
  · obtain ⟨o, m, hjoined, hsame⟩ :=
      ((finishes_append {} [(1, defines)] [.expr () (.name () "f")] prints).1 _ _ hname).1 _ _
        hprints
    refine ⟨o, m, hjoined, ?_, ?_⟩
    · rw [hsame]
      rfl
    · rw [hsame]
      decide
  · exact ⟨start, (finishes_append {} [(1, defines)] _ prints).2 _ _ hunbound, by decide⟩

end Machine

end Scriptlet
