/-
  Termination: a program without loops comes to an end.

  1. **Loop-free trees** (`Stmt.loopFree`) — no loop anywhere, also not in the body of a function.
  2. **Readiness** (`Machine.Ready`) — the machine evaluates at a known depth and the bodies of all
     closures kept are loop-free: a call runs a body that is no part of the tree at hand, so nothing
     about the tree alone gets smaller there.
  3. **The measure** — the levels of depth that are left.  Every expression and statement takes one
     of them before it does anything else, and between two of them at most one call is entered.  So
     two steps inside one another for every level, and one to find that no level is left, are
     enough; only the turns of a loop go on at one level.
  4. **The crux (`Eval.concludes`)** — by induction on the bound on steps, whatever is given enough
     of them for the levels left concludes: with a result or a fault, on a machine ready at the
     depth it started at.
-/
import Scriptlet.Proofs.Eval.Limits
import Scriptlet.Proofs.Eval.Sites

namespace Scriptlet

variable {α β γ : Type}

/-! ## Loop-free trees -/

mutual

/-- Whether a statement contains no loop. -/
def Stmt.loopFree : Stmt α → Bool
  | .expr _ _ | .declare _ _ _ | .print _ _ | .ret _ _ | .breakLoop _ | .continueLoop _ => true
  | .block _ body | .function _ _ _ body => Stmt.allLoopFree body
  | .cond _ _ t none => Stmt.allLoopFree t
  | .cond _ _ t (some branch) => Stmt.allLoopFree t && branch.loopFree
  | .loop _ _ _ => false

/-- `Stmt.loopFree` for every statement of a list. -/
def Stmt.allLoopFree : List (Stmt α) → Bool
  | [] => true
  | s :: rest => s.loopFree && Stmt.allLoopFree rest

end

/-- Whether a program contains no loop. -/
def Program.loopFree (p : Program α) : Bool := Stmt.allLoopFree p.statements

/-- A body is loop-free just if its statements are. -/
theorem Stmt.allLoopFree_iff {body : List (Stmt α)} :
    Stmt.allLoopFree body = true ↔ ∀ s ∈ body, s.loopFree = true := by
  induction body with
  | nil => exact iff_of_true rfl (List.forall_mem_nil _)
  | cons s rest ih => rw [Stmt.allLoopFree, Bool.and_eq_true, ih, List.forall_mem_cons]

/-! ## Ready machines -/

namespace Machine

/-- The change keeps the bodies of closures loop-free, and the depth. -/
def KeepsReady (f : Machine α → Machine α) : Prop :=
  KeepsBodies (fun body => Stmt.allLoopFree body = true) f ∧ ∀ m, (f m).depth = m.depth

/-- The machine evaluates at depth `d`, and the bodies of all closures kept are loop-free. -/
structure Ready (d : Nat) (m : Machine α) : Prop where
  depth : m.depth = d
  bodies : m.Bodies fun body => Stmt.allLoopFree body = true

variable {d : Nat} {m : Machine α}

/-- Readiness is kept by changes that keep it. -/
theorem Ready.change (h : m.Ready d) {f : Machine α → Machine α} (hf : KeepsReady f) :
    (f m).Ready d :=
  ⟨(hf.2 m).trans h.depth, hf.1 m h.bodies⟩

/-- Ending a scope leaves the depth. -/
theorem depth_endScope (settings : Settings) (held : List Value) (i : ScopeId) (m : Machine α) :
    (m.endScope settings held i).depth = m.depth := by
  unfold endScope
  split
  · dsimp only
    split
    · rw [collect_eq]
      rfl
    · rfl
  · rfl

/-- A collection only drops closures. -/
theorem endScope_keepsReady (settings : Settings) (held : List Value) (i : ScopeId) :
    KeepsReady fun m : Machine α => m.endScope settings held i :=
  ⟨endScope_keepsBodies settings held i, depth_endScope settings held i⟩

/-- Binding arguments makes no closure. -/
theorem bindParams_keepsReady (scope : ScopeId) (params : List String) (values : List Value) :
    KeepsReady (Eval.bindParams scope params values : Machine α → Machine α) := by
  refine ⟨bindParams_keepsBodies scope params values, fun m => ?_⟩
  exact Eval.bindParams_keeps (P := fun k => k.depth = m.depth) (fun _ _ _ h => h) params values rfl

/-- A definition adds one closure, whose body is loop-free. -/
theorem define_keepsReady {c : Closure α} (hbody : Stmt.allLoopFree c.body = true) (f : String) :
    KeepsReady fun m => (m.define c).2.declare c.scope f (.function (m.define c).1 f) := by
  refine ⟨define_keepsBodies hbody f, fun m => ?_⟩
  dsimp only
  rw [define_eq]
  rfl

end Machine

namespace Eval

/-! ## Conclusions -/

/-- The end of a computation that concludes at depth `d`: a result, or a fault, but not the bound on
    steps. -/
def Conclusion (d : Nat) : EStateM.Result (Halt α) (Machine α) β → Prop
  | .ok _ m => m.Ready d
  | .error e m => m.Ready d ∧ e ≠ .outOfFuel

/-- From a machine ready at depth `d` the computation comes to such an end. -/
def Concludes (d : Nat) (p : Eval α β) : Prop := ∀ m : Machine α, m.Ready d → Conclusion d (p m)

section Rules

variable {d : Nat} {p : Eval α β} {f : β → Eval α γ}

theorem pure_concludes (b : β) : Concludes d (pure b : Eval α β) := fun _ h => h

/-- A fault is a conclusion, the bound on steps is none. -/
theorem fail_concludes (cause : RuntimeFault) (site : α) :
    Concludes d (fail cause site : Eval α β) := fun _ h => ⟨h, nofun⟩

/-- An operator gives a result or a fault. -/
theorem lift_concludes (site : α) (r : Except RuntimeFault β) : Concludes d (lift site r) := by
  cases r with
  | ok b => exact pure_concludes b
  | error cause => exact fail_concludes cause site

/-- A change is made, and that is all. -/
theorem modify_concludes {g : Machine α → Machine α} (hg : Machine.KeepsReady g) :
    Concludes d (modify g : Eval α PUnit) := fun _ h => h.change hg

/-- The machine at hand is ready. -/
theorem get_concludes {f : Machine α → Eval α β}
    (h : ∀ m : Machine α, m.Ready d → Concludes d (f m)) : Concludes d (get >>= f) :=
  fun m hm => h m hm m hm

/-- **One computation after another.** -/
theorem Concludes.bind (h : Concludes d p) (hnext : ∀ b, Concludes d (f b)) :
    Concludes d (p >>= f) := by
  intro m hm
  have hfirst := h m hm
  show Conclusion d (EStateM.bind p f m)
  unfold EStateM.bind
  cases hp : p m with
  | ok b m' =>
    rw [hp] at hfirst
    exact hnext b m' hfirst
  | error e m' =>
    rw [hp] at hfirst
    exact hfirst

/-- A part between a change of the counters and another one that undoes it on every way out. -/
theorem Concludes.between {d' : Nat} (h : Concludes d' p) {before after : Machine α → Machine α}
    (hbefore : ∀ m, m.Ready d → (before m).Ready d')
    (hafter : ∀ m, m.Ready d' → (after m).Ready d) :
    Concludes d (do modify before; always after p) := by
  intro m hm
  have hinner := h (before m) (hbefore m hm)
  show Conclusion d (always after p (before m))
  unfold Scriptlet.always
  cases hp : p (before m) with
  | ok b m' =>
    rw [hp] at hinner
    exact hafter m' hinner
  | error e m' =>
    rw [hp] at hinner
    exact ⟨hafter m' hinner.1, hinner.2⟩

/-- **One level deeper.**  Where no level is left that is a fault. -/
theorem Concludes.descend {settings : Settings} {site : α}
    (h : d < settings.limits.depth → Concludes (d + 1) p) :
    Concludes d (descend settings site p) := by
  refine get_concludes fun m hm => ?_
  by_cases hlevel : m.depth < settings.limits.depth
  · rw [if_pos hlevel]
    exact (h (hm.depth ▸ hlevel)).between
      (fun _ hm => ⟨congrArg (· + 1) hm.depth, hm.bodies⟩)
      (fun _ hm => ⟨congrArg (· - 1) hm.depth, hm.bodies⟩)
  · rw [if_neg hlevel]
    exact fail_concludes _ site

/-- Calls are counted apart from levels. -/
theorem Concludes.inCall (h : Concludes d p) : Concludes d (inCall p) :=
  h.between (fun _ hm => ⟨hm.depth, hm.bodies⟩) (fun _ hm => ⟨hm.depth, hm.bodies⟩)

/-- A scope of its own takes no level. -/
theorem Concludes.inScope {p : ScopeId → Eval α β} (h : ∀ i, Concludes d (p i))
    (settings : Settings) (held : List Value) (parent : ScopeId) (needed : β → List Value) :
    Concludes d (inScope settings held parent needed p) := by
  intro m hm
  rw [inScope_eq]
  have hinner := h (m.arena.nextSlot parent) (m.opening parent) ⟨hm.depth, hm.bodies⟩
  cases hp : p (m.arena.nextSlot parent) (m.opening parent) with
  | ok b m' =>
    rw [hp] at hinner
    exact hinner.change (Machine.endScope_keepsReady settings _ _)
  | error e m' =>
    rw [hp] at hinner
    exact ⟨hinner.1.change (Machine.endScope_keepsReady settings _ _), hinner.2⟩

/-! ## Lists -/

/-- Arguments are evaluated one after the other, at one depth. -/
theorem arguments_conclude {eval : List Value → Expr α → Eval α Value}
    (h : ∀ held e, Concludes d (eval held e)) (es : List (Expr α)) (held : List Value) :
    Concludes d (arguments eval held es) := by
  induction es generalizing held with
  | nil => exact pure_concludes _
  | cons e rest ih =>
    refine (h held e).bind fun v => ?_
    exact (ih (v :: held)).bind fun others => pure_concludes _

theorem texts_conclude {eval : Expr α → Eval α Value} (h : ∀ e, Concludes d (eval e))
    (es : List (Expr α)) : Concludes d (texts eval es) := by
  induction es with
  | nil => exact pure_concludes _
  | cons e rest ih =>
    refine (h e).bind fun v => ?_
    exact ih.bind fun others => pure_concludes _

/-- So are statements. -/
theorem sequence_concludes {exec : Stmt α → Eval α Flow} {body : List (Stmt α)}
    (h : ∀ s ∈ body, Concludes d (exec s)) : Concludes d (sequence exec body) := by
  induction body with
  | nil => exact pure_concludes _
  | cons s rest ih =>
    obtain ⟨hs, hrest⟩ := List.forall_mem_cons.mp h
    refine hs.bind fun flow => ?_
    cases flow with
    | normal => exact ih hrest
    | breaking | continuing | returning v => exact pure_concludes _

theorem optional_concludes {eval : Expr α → Eval α Value} (h : ∀ e, Concludes d (eval e))
    (e : Option (Expr α)) : Concludes d (optional eval e) := by
  cases e with
  | none => exact pure_concludes _
  | some e => exact h e

/-- A built-in function takes no step. -/
theorem callBuiltin_concludes (site : α) (b : Builtin) (values : List Value) :
    Concludes d (callBuiltin site b values) := by
  match values with
  | [v] => exact lift_concludes site _
  | [] | _ :: _ :: _ => exact fail_concludes _ site

/-- Nor does what a call gives. -/
theorem result_concludes (site : α) (flow : Flow) :
    Concludes d (result site flow : Eval α Value) := by
  cases flow with
  | normal => exact pure_concludes _
  | returning v => exact pure_concludes v
  | breaking | continuing => exact fail_concludes _ site

end Rules

/-! ## Expressions, calls and statements -/

/-- Under a bound on steps that is enough for the levels left below `limit`, whatever has no loops
    concludes.  A call needs one step more than the statements of its body. -/
structure AllConclude (α : Type) (settings : Settings) (fuel : Nat) : Prop where
  eval : ∀ d held scope (e : Expr α), 2 * (settings.limits.depth - d) < fuel →
    Concludes d (eval settings fuel held scope e)
  call : ∀ d held (site : α) f values, 2 * (settings.limits.depth - d) + 1 < fuel →
    Concludes d (call settings fuel held site f values)
  exec : ∀ d held scope (s : Stmt α), s.loopFree = true → 2 * (settings.limits.depth - d) < fuel →
    Concludes d (exec settings fuel held scope s)

section Parts

variable {settings : Settings} {fuel d : Nat}

/-- An expression takes a level, so what is left is enough for its parts. -/
theorem eval_concludes (ih : AllConclude α settings fuel) (held : List Value) (scope : ScopeId)
    (e : Expr α) (hfuel : 2 * (settings.limits.depth - d) < fuel + 1) :
    Concludes d (eval settings (fuel + 1) held scope e) := by
  rw [eval.eq_def]
  refine Concludes.descend fun hlevel => ?_
  -- one level less is left for the parts, and two steps less are needed
  have hpart : ∀ held e, Concludes (d + 1) (eval settings fuel held scope e) :=
    fun held e => ih.eval (d + 1) held scope e (by omega)
  cases e with
  | literal _ v => exact pure_concludes _
  | name site x =>
    -- a name is found or not: either way this ends
    refine get_concludes fun m _ => ?_
    cases m.arena.get? scope x with
    | some v => exact pure_concludes v
    | none => exact fail_concludes _ site
  | unary site op e => exact (hpart held e).bind fun v => lift_concludes site _
  | operation site op left right =>
    refine (hpart held left).bind fun l => ?_
    cases op with
    | logical op =>
      -- the left operand may decide: nothing is left to do
      dsimp only
      split
      · exact pure_concludes l
      · exact hpart (l :: held) right
    | binary op => exact (hpart (l :: held) right).bind fun r => lift_concludes site _
  | assign _ x e =>
    refine (hpart held e).bind fun v => ?_
    have hassign : Machine.KeepsReady fun m : Machine α => m.assign scope x v :=
      ⟨fun _ h => h, fun _ => rfl⟩
    exact (modify_concludes hassign).bind fun _ => pure_concludes v
  | call site callee args =>
    -- the call uses a step without a level, which is why two are counted for each level
    refine (hpart held callee).bind fun f => ?_
    exact (arguments_conclude hpart args (f :: held)).bind fun values =>
      ih.call (d + 1) held site f values (by omega)

theorem call_concludes (ih : AllConclude α settings fuel) (held : List Value) (site : α) (f : Value)
    (values : List Value) (hfuel : 2 * (settings.limits.depth - d) + 1 < fuel + 1) :
    Concludes d (call settings (fuel + 1) held site f values) := by
  rw [call.eq_def]
  cases f with
  | builtin b => exact callBuiltin_concludes site b values
  | nil | bool _ | integer _ | float _ | str _ => exact fail_concludes _ site
  | function id name =>
    refine get_concludes fun m hm => ?_
    cases hc : m.closure? id with
    | none => exact fail_concludes _ site
    | some c =>
      dsimp only
      split
      · exact fail_concludes _ site
      · split
        · exact fail_concludes _ site
        · -- the body had no loops when it was defined, and its statements take a level each
          have hbody : ∀ scope, Concludes d
              (sequence (exec settings fuel (.function id name :: held) scope) c.body) :=
            fun scope => sequence_concludes fun s hs =>
              ih.exec d _ scope s (Stmt.allLoopFree_iff.mp (hm.bodies id c hc) s hs) (by omega)
          have hscope := Concludes.inScope (fun scope =>
            (modify_concludes (Machine.bindParams_keepsReady scope c.params values)).bind fun _ =>
              (hbody scope).inCall) settings (.function id name :: held) c.scope Flow.values
          exact hscope.bind fun flow => result_concludes site flow

theorem exec_concludes (ih : AllConclude α settings fuel) (held : List Value) (scope : ScopeId)
    (s : Stmt α) (hs : s.loopFree = true) (hfuel : 2 * (settings.limits.depth - d) < fuel + 1) :
    Concludes d (exec settings (fuel + 1) held scope s) := by
  rw [exec.eq_def]
  refine Concludes.descend fun hlevel => ?_
  have heval : ∀ e, Concludes (d + 1) (eval settings fuel held scope e) :=
    fun e => ih.eval (d + 1) held scope e (by omega)
  -- a block has no loop, so it ends
  have hblock : ∀ body : List (Stmt α), Stmt.allLoopFree body = true → Concludes (d + 1)
      (inScope settings held scope Flow.values fun inner =>
        sequence (exec settings fuel held inner) body) := by
    intro body hbody
    exact Concludes.inScope (fun inner => sequence_concludes fun s hs =>
      ih.exec (d + 1) held inner s (Stmt.allLoopFree_iff.mp hbody s hs) (by omega)) settings held
        scope Flow.values
  have hchange : ∀ {g : Machine α → Machine α}, Machine.KeepsReady g →
      Concludes (d + 1) (do modify g; return Flow.normal) :=
    fun hg => (modify_concludes hg).bind fun _ => pure_concludes _
  cases s with
  | expr _ e => exact (heval e).bind fun _ => pure_concludes _
  | declare _ x e =>
    exact (optional_concludes heval e).bind fun v => hchange ⟨fun _ h => h, fun _ => rfl⟩
  | print _ args =>
    exact (texts_conclude heval args).bind fun parts => hchange ⟨fun _ h => h, fun _ => rfl⟩
  | block _ body => exact hblock body hs
  | cond _ condition consequent alternative =>
    refine (heval condition).bind fun c => ?_
    cases alternative with
    | none =>
      split
      · exact hblock consequent hs
      · exact pure_concludes _
    | some branch =>
      obtain ⟨hconsequent, hbranch⟩ := Bool.and_eq_true_iff.mp hs
      split
      · exact hblock consequent hconsequent
      · exact ih.exec (d + 1) held scope branch hbranch (by omega)
  -- there is no loop
  | loop _ _ _ => exact absurd hs Bool.false_ne_true
  | function _ f params body =>
    -- a body that is stored has no loop either, so a later call of it ends
    exact hchange (Machine.define_keepsReady (c := ⟨params, body, scope⟩) hs f)
  | ret _ e => exact (optional_concludes heval e).bind fun v => pure_concludes _
  | breakLoop _ => exact pure_concludes _
  | continueLoop _ => exact pure_concludes _

/-- **Whatever has no loops concludes**, given two steps for every level left and one more. -/
theorem concludes (α : Type) (settings : Settings) (fuel : Nat) :
    AllConclude α settings fuel := by
  induction fuel with
  | zero =>
    exact ⟨fun _ _ _ _ h => absurd h (Nat.not_lt_zero _), fun _ _ _ _ _ h =>
      absurd h (Nat.not_lt_zero _), fun _ _ _ _ _ h => absurd h (Nat.not_lt_zero _)⟩
  | succ fuel ih =>
    exact ⟨fun d => eval_concludes ih, fun d => call_concludes ih, fun d => exec_concludes ih⟩

/-- A statement at the top level that is no expression, before those that follow. -/
theorem topLevelStmt_concludes {last : Value} {rest : List (Stmt α)}
    (hrest : Concludes 0 (topLevel settings fuel last rest))
    (hfuel : 2 * settings.limits.depth < fuel) {s : Stmt α} (hs : s.loopFree = true) :
    Concludes 0 (followed (exec settings fuel [last] Arena.global s)
      (topLevel settings fuel last rest) fun flow => fail flow.misplaced s.note) := by
  refine ((concludes α settings fuel).exec 0 [last] Arena.global s hs hfuel).bind fun flow => ?_
  cases flow with
  | normal => exact hrest
  | breaking | continuing | returning _ => exact fail_concludes _ s.note

theorem topLevel_concludes (hfuel : 2 * settings.limits.depth < fuel) (last : Value)
    {statements : List (Stmt α)} (h : Stmt.allLoopFree statements = true) :
    Concludes 0 (topLevel settings fuel last statements) := by
  induction statements generalizing last with
  | nil =>
    rw [topLevel]
    exact pure_concludes last
  | cons s rest ih =>
    obtain ⟨hs, hrest⟩ := Bool.and_eq_true_iff.mp h
    cases s with
    | expr site e =>
      rw [topLevel]
      refine ((concludes α settings fuel).eval 0 [last] Arena.global e hfuel).bind fun v => ?_
      exact ih v hrest
    | _ => exact topLevelStmt_concludes (ih last hrest) hfuel hs

end Parts

end Eval

namespace Machine

/-- A program without loops ends on a machine that is ready, and leaves it ready for the next. -/
theorem run_concludes {settings : Settings} {fuel : Nat} {p : Program α}
    (hp : p.loopFree = true) (hfuel : 2 * settings.limits.depth < fuel) {start : Machine α}
    (hstart : start.Ready 0) :
    (start.run settings fuel p).1 ≠ .outOfFuel ∧ (start.run settings fuel p).2.Ready 0 := by
  have hend := Eval.topLevel_concludes hfuel .nil hp start hstart
  unfold run
  split
  · next heq =>
    rw [heq] at hend
    exact ⟨nofun, hend⟩
  · next heq =>
    rw [heq] at hend
    exact ⟨nofun, hend.1⟩
  · next heq =>
    rw [heq] at hend
    exact absurd rfl hend.2

/-- **A program without loops comes to an end** on a fresh machine under all limits, with a value or
    a fault: two steps inside one another for every level of depth allowed, and one more, are
    enough, and with more of them the end is the same. -/
theorem finishes_of_loopFree (settings : Settings) (p : Program α) (hp : p.loopFree = true) :
    ∃ o m, (initial : Machine α).Finishes settings p o m ∧
      ∀ fuel, 2 * settings.limits.depth < fuel → initial.run settings fuel p = (o, m) := by
  have hready : (initial : Machine α).Ready 0 := ⟨rfl, bodies_initial⟩
  have hend := (run_concludes hp (Nat.lt_succ_self (2 * settings.limits.depth)) hready).1
  refine ⟨_, _, ⟨hend, 2 * settings.limits.depth + 1, rfl⟩, fun fuel hfuel => ?_⟩
  exact run_of_le rfl hend hfuel

/-- `fn f(g) { return g(g) }` and `f(f)`: a function that is passed itself, and calls it. -/
def selfCall : Program Unit :=
  ⟨[.function () "f" ["g"] [.ret () (some (.call () (.name () "g") [.name () "g"]))],
    .expr () (.call () (.name () "f") [.name () "f"])]⟩

/-- The endless recursion of `selfCall` ends: at three calls inside one another if two are allowed,
    and at the fifth level of depth if only so many are. -/
theorem finishes_of_loopFree_selfCall : selfCall.loopFree = true ∧
    (∃ m, initial.Finishes ⟨{ calls := 2, depth := 9 }, true⟩ selfCall
      (.fault ⟨.callDepthExceeded 2, ()⟩) m) ∧
    ∃ m, initial.Finishes ⟨{ calls := 9, depth := 5 }, true⟩ selfCall
      (.fault ⟨.depthExceeded 5, ()⟩) m := by
  have hloopFree : selfCall.loopFree = true := rfl
  obtain ⟨o, m, hfinishes, hrun⟩ :=
    finishes_of_loopFree ⟨{ calls := 2, depth := 9 }, true⟩ selfCall hloopFree
  obtain ⟨o', m', hfinishes', hrun'⟩ :=
    finishes_of_loopFree ⟨{ calls := 9, depth := 5 }, true⟩ selfCall hloopFree
  have hcalls : (initial.run ⟨{ calls := 2, depth := 9 }, true⟩ 19 selfCall).1
      = .fault ⟨.callDepthExceeded 2, ()⟩ := rfl
  have hdepth : (initial.run ⟨{ calls := 9, depth := 5 }, true⟩ 11 selfCall).1
      = .fault ⟨.depthExceeded 5, ()⟩ := rfl
  rw [hrun 19 (by decide)] at hcalls
  rw [hrun' 11 (by decide)] at hdepth
  exact ⟨hloopFree, ⟨m, hcalls ▸ hfinishes⟩, m', hdepth ▸ hfinishes'⟩

end Machine

end Scriptlet
