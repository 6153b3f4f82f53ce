/-
  Jumps: what leaves a statement lands where its text says.

  1. **Where a statement is written** (`Written`) — in the innermost body running, inside blocks and
     branches only; and every loop that runs is written so in the body around it, up to the call
     or the program (`Nested`).
  2. **Where a jump may land** (`Lands`) — `break` and `continue` in the loop they are written in,
     `return` in the call around the loops it is written in.  `Settled` says it of every jump made.
  3. **Placement** — the context conditions of a parsed program hold of the statement about to run,
     taken with the bodies running (`Stands`), and of the body of every closure kept
     (`Machine.Placed`): a closure may come from an earlier program.
  4. **The crux** (`Watched.lawful`) — a statement that stands where it may ends normally with all
     jumps settled, or with exactly one on its way, to a body that is still running (`Pending`).
     Nothing is evaluated while a jump is on its way, so no fault comes between.
-/
import Scriptlet.Proofs.Eval.Sites
import Scriptlet.Proofs.Eval.Watch
import Scriptlet.Proofs.Layout.Stability

namespace Scriptlet

variable {α β γ : Type}

/-! ## Where statements are written -/

/-- The statement is written in the body, inside no loop and no function of it. -/
inductive Within (body : List (Stmt α)) : Stmt α → Prop
  | here {s : Stmt α} : s ∈ body → Within body s
  | block {a : α} {inner : List (Stmt α)} {s : Stmt α} :
    Within body (.block a inner) → s ∈ inner → Within body s
  | consequent {a : α} {c : Expr α} {t : List (Stmt α)} {alt : Option (Stmt α)} {s : Stmt α} :
    Within body (.cond a c t alt) → s ∈ t → Within body s
  | alternative {a : α} {c : Expr α} {t : List (Stmt α)} {s : Stmt α} :
    Within body (.cond a c t (some s)) → Within body s

/-- Bodies that run inside one another, innermost first: a program is the outermost, and a loop is
    written in the body around it. -/
inductive Nested : List (Frame α) → Prop
  | program {body : List (Stmt α)} : Nested [.program body]
  | call {frames : List (Frame α)} {body : List (Stmt α)} :
    Nested frames → Nested (.call body :: frames)
  | loop {outer : Frame α} {frames : List (Frame α)} {a : α} {c : Expr α} {body : List (Stmt α)} :
    Nested (outer :: frames) → Within outer.body (.loop a c body) →
      Nested (.loop body :: outer :: frames)

/-- The statement is written in the innermost body running. -/
inductive Written : List (Frame α) → Stmt α → Prop
  | intro {frame : Frame α} {frames : List (Frame α)} {s : Stmt α} :
    Nested (frame :: frames) → Within frame.body s → Written (frame :: frames) s

namespace Written

variable {frames : List (Frame α)} {s : Stmt α} {a : α} {c : Expr α} {body : List (Stmt α)}
  {alt : Option (Stmt α)}

/-- A statement is written in a body that is running, so the bodies running are nested. -/
theorem nested (h : Written frames s) : Nested frames := by
  obtain ⟨hnested, -⟩ := h
  exact hnested

/-- What is in a block is written where the block is. -/
theorem block (h : Written frames (.block a body)) (hs : s ∈ body) : Written frames s := by
  obtain ⟨hnested, hwithin⟩ := h
  exact ⟨hnested, hwithin.block hs⟩

/-- What is in a branch is written where the conditional is. -/
theorem consequent (h : Written frames (.cond a c body alt)) (hs : s ∈ body) :
    Written frames s := by
  obtain ⟨hnested, hwithin⟩ := h
  exact ⟨hnested, hwithin.consequent hs⟩

theorem alternative (h : Written frames (.cond a c body (some s))) : Written frames s := by
  obtain ⟨hnested, hwithin⟩ := h
  exact ⟨hnested, hwithin.alternative⟩

/-- What is in the body of a loop is written in the loop. -/
theorem loop (h : Written frames (.loop a c body)) (hs : s ∈ body) :
    Written (.loop body :: frames) s := by
  obtain ⟨hnested, hwithin⟩ := h
  exact ⟨.loop hnested hwithin, .here hs⟩

end Written

/-! ## Where jumps land -/

/-- A loop runs, not a call or a program. -/
def Frame.isLoop : Frame α → Bool
  | loop _ => true
  | _ => false

/-- A jump from a statement, while some bodies are running, may be taken up by these bodies with
    this flow. -/
inductive Lands : Stmt α → List (Frame α) → List (Frame α) → Flow → Prop
  | breakLoop {a : α} {body : List (Stmt α)} {frames : List (Frame α)} :
    Written (.loop body :: frames) (.breakLoop a) →
      Lands (.breakLoop a) (.loop body :: frames) (.loop body :: frames) .breaking
  | continueLoop {a : α} {body : List (Stmt α)} {frames : List (Frame α)} :
    Written (.loop body :: frames) (.continueLoop a) →
      Lands (.continueLoop a) (.loop body :: frames) (.loop body :: frames) .continuing
  | ret {a : α} {e : Option (Expr α)} {loops frames : List (Frame α)} {body : List (Stmt α)}
    {v : Value} :
    Written (loops ++ .call body :: frames) (.ret a e) → (∀ frame ∈ loops, frame.isLoop = true) →
      Lands (.ret a e) (loops ++ .call body :: frames) (.call body :: frames) (.returning v)

/-- Every jump, the latest first, was taken up where it may be before the next one left. -/
inductive Settled : List (Jump α) → Prop
  | none : Settled []
  | more {s : Stmt α} {frames target : List (Frame α)} {flow : Flow} {jumps : List (Jump α)} :
    Settled jumps → Lands s frames target flow →
      Settled (.land target flow :: .leave frames s :: jumps)

/-- With this flow a statement ended while the bodies were running: normally, with all jumps
    settled, or with one on its way, to the innermost body or a call further out. -/
inductive Pending : List (Frame α) → Flow → List (Jump α) → Prop
  | normal {frames : List (Frame α)} {jumps : List (Jump α)} :
    Settled jumps → Pending frames .normal jumps
  | here {s : Stmt α} {frames target : List (Frame α)} {flow : Flow} {jumps : List (Jump α)} :
    Settled jumps → Lands s frames target flow → Pending target flow (.leave frames s :: jumps)
  | outside {frames : List (Frame α)} {body : List (Stmt α)} {v : Value} {jumps : List (Jump α)} :
    Pending frames (.returning v) jumps → Pending (.loop body :: frames) (.returning v) jumps

namespace Pending

variable {frames : List (Frame α)} {body : List (Stmt α)} {jumps : List (Jump α)} {flow : Flow}
  {v : Value}

/-- After a normal end nothing is on its way. -/
theorem settled (h : Pending frames .normal jumps) : Settled jumps := by
  cases h with
  | normal h => exact h
  | here _ hlands => cases hlands

/-- A loop passes a `return` on. -/
theorem passed_on (h : Pending (.loop body :: frames) (.returning v) jumps) :
    Pending frames (.returning v) jumps := by
  cases h with
  | here _ hlands => cases hlands
  | outside h => exact h

/-- A loop takes up `break` and `continue`. -/
theorem landed_in_loop (h : Pending (.loop body :: frames) flow jumps)
    (hflow : flow = .breaking ∨ flow = .continuing) :
    Settled (.land (.loop body :: frames) flow :: jumps) := by
  cases h with
  | normal _ => exact hflow.elim (nomatch ·) (nomatch ·)
  | here hjumps hlands => exact .more hjumps hlands
  | outside _ => exact hflow.elim (nomatch ·) (nomatch ·)

/-- A call takes up what its body ends with: nothing but `return`. -/
theorem landed_in_call (h : Pending (.call body :: frames) flow jumps) :
    flow = .normal ∧ Settled jumps ∨
      ∃ v, flow = .returning v ∧ Settled (.land (.call body :: frames) flow :: jumps) := by
  cases h with
  | normal hjumps => exact .inl ⟨rfl, hjumps⟩
  | here hjumps hlands =>
    have hlands' := hlands
    cases hlands with
    | ret _ _ => exact .inr ⟨_, rfl, .more hjumps hlands'⟩

/-- A program takes up nothing. -/
theorem normal_in_program (h : Pending [.program body] flow jumps) :
    flow = .normal ∧ Settled jumps := by
  cases h with
  | normal hjumps => exact ⟨rfl, hjumps⟩
  | here _ hlands => cases hlands

/-- A `return` passes loops. -/
theorem through {loops : List (Frame α)} (hloops : ∀ frame ∈ loops, frame.isLoop = true)
    (h : Pending frames (.returning v) jumps) : Pending (loops ++ frames) (.returning v) jumps := by
  induction loops with
  | nil => exact h
  | cons frame loops ih =>
    obtain ⟨hframe, hrest⟩ := List.forall_mem_cons.mp hloops
    cases frame with
    | loop body => exact .outside (ih hrest)
    | program _ | call _ => exact nomatch hframe

end Pending

/-! ## Placement -/

/-- Whether the innermost body running is that of a loop. -/
def Frame.inLoop : List (Frame α) → Bool
  | .loop _ :: _ => true
  | _ => false

/-- Whether the loops running innermost are inside a call. -/
def Frame.inFunction : List (Frame α) → Bool
  | .loop _ :: frames => inFunction frames
  | .call _ :: _ => true
  | _ => false

/-- In a loop, the innermost body is that of the loop. -/
theorem Frame.eq_loop_of_inLoop {frames : List (Frame α)} (h : Frame.inLoop frames = true) :
    ∃ body outer, frames = .loop body :: outer := by
  unfold Frame.inLoop at h
  split at h
  · next body outer => exact ⟨body, outer, rfl⟩
  · exact nomatch h

/-- In a function, a call is running, with loops inside it at most. -/
theorem Frame.eq_call_of_inFunction {frames : List (Frame α)}
    (h : Frame.inFunction frames = true) :
    ∃ loops body outer, frames = loops ++ .call body :: outer ∧
      ∀ frame ∈ loops, frame.isLoop = true := by
  induction frames with
  | nil => exact nomatch h
  | cons frame frames ih =>
    cases frame with
    | program body => exact nomatch h
    | call body => exact ⟨[], body, frames, rfl, fun _ hmem => nomatch hmem⟩
    | loop body =>
      obtain ⟨loops, called, outer, heq, hloops⟩ := ih h
      refine ⟨.loop body :: loops, called, outer, by rw [heq]; rfl, ?_⟩
      exact List.forall_mem_cons.mpr ⟨rfl, hloops⟩

/-- A body is well placed just if its statements are. -/
theorem Stmt.allWellPlaced_iff {f l : Bool} {body : List (Stmt α)} :
    Stmt.allWellPlaced f l body = true ↔ ∀ s ∈ body, s.wellPlaced f l = true := by
  induction body with
  | nil => exact ⟨fun _ _ => (nomatch ·), fun _ => rfl⟩
  | cons s rest ih => rw [Stmt.allWellPlaced, Bool.and_eq_true, ih, List.forall_mem_cons]

/-- The statement is written in the innermost body running, and stands where it may. -/
structure Stands (frames : List (Frame α)) (s : Stmt α) : Prop where
  written : Written frames s
  placed : s.wellPlaced (Frame.inFunction frames) (Frame.inLoop frames) = true

namespace Stands

variable {frames : List (Frame α)} {s : Stmt α} {a : α} {c : Expr α} {body : List (Stmt α)}
  {alt : Option (Stmt α)}

/-- At the top level nothing but the program is running. -/
theorem program (h : Stmt.allWellPlaced false false body = true) (hs : s ∈ body) :
    Stands [.program body] s :=
  ⟨⟨.program, .here hs⟩, Stmt.allWellPlaced_iff.mp h s hs⟩

/-- A body that is placed inside a function may run in a call, whatever is running around. -/
theorem call (hframes : Nested frames) (h : Stmt.allWellPlaced true false body = true)
    (hs : s ∈ body) : Stands (.call body :: frames) s :=
  ⟨⟨.call hframes, .here hs⟩, Stmt.allWellPlaced_iff.mp h s hs⟩

theorem block (h : Stands frames (.block a body)) (hs : s ∈ body) : Stands frames s :=
  ⟨h.written.block hs, Stmt.allWellPlaced_iff.mp h.placed s hs⟩

theorem consequent (h : Stands frames (.cond a c body alt)) (hs : s ∈ body) : Stands frames s := by
  have hbody : Stmt.allWellPlaced (Frame.inFunction frames) (Frame.inLoop frames) body = true := by
    have hplaced := h.placed
    cases alt with
    | none => exact hplaced
    | some branch => exact (Bool.and_eq_true_iff.mp hplaced).1
  exact ⟨h.written.consequent hs, Stmt.allWellPlaced_iff.mp hbody s hs⟩

theorem alternative (h : Stands frames (.cond a c body (some s))) : Stands frames s :=
  ⟨h.written.alternative, (Bool.and_eq_true_iff.mp h.placed).2⟩

theorem loop (h : Stands frames (.loop a c body)) (hs : s ∈ body) :
    Stands (.loop body :: frames) s :=
  ⟨h.written.loop hs, Stmt.allWellPlaced_iff.mp h.placed s hs⟩

/-- The body of a function that is defined is placed inside a function. -/
theorem function {f : String} {params : List String}
    (h : Stands frames (.function a f params body)) :
    Stmt.allWellPlaced true false body = true :=
  (Bool.and_eq_true_iff.mp h.placed).2

/-! A jump from where it may stand is on its way. -/

variable {jumps : List (Jump α)}

/-- A `break` leaves for the loop it is in. -/
theorem breakLoop (h : Stands frames (.breakLoop a)) (hjumps : Settled jumps) :
    Pending frames .breaking (.leave frames (.breakLoop a) :: jumps) := by
  obtain ⟨body, outer, rfl⟩ := Frame.eq_loop_of_inLoop h.placed
  exact .here hjumps (.breakLoop h.written)

/-- A `continue` leaves for the loop it is in. -/
theorem continueLoop (h : Stands frames (.continueLoop a)) (hjumps : Settled jumps) :
    Pending frames .continuing (.leave frames (.continueLoop a) :: jumps) := by
  obtain ⟨body, outer, rfl⟩ := Frame.eq_loop_of_inLoop h.placed
  exact .here hjumps (.continueLoop h.written)

/-- A `return` leaves for the call it is in. -/
theorem ret {e : Option (Expr α)} (h : Stands frames (.ret a e)) (hjumps : Settled jumps)
    (v : Value) : Pending frames (.returning v) (.leave frames (.ret a e) :: jumps) := by
  obtain ⟨loops, body, outer, rfl, hloops⟩ := Frame.eq_call_of_inFunction h.placed
  exact .through hloops (.here hjumps (.ret h.written hloops))

end Stands

/-! ## Closures -/

namespace Machine

/-- The body of every closure kept satisfies the context conditions of a function. -/
def Placed (m : Machine α) : Prop := m.Bodies fun body => Stmt.allWellPlaced true false body = true

/-- The change keeps closures placed. -/
def Keeps (f : Machine α → Machine α) : Prop :=
  KeepsBodies (fun body => Stmt.allWellPlaced true false body = true) f

end Machine

/-! ## Faults -/

/-- The fault is that of a jump with nothing around it to end. -/
def RuntimeFault.isMisplaced : RuntimeFault → Bool
  | .invalidControlFlow _ => true
  | _ => false

/-- Operators and built-in functions never blame a jump. -/
theorem RuntimeFault.not_misplaced {cause : RuntimeFault} (h : cause.blamesOperands = true) :
    cause.isMisplaced = false := by
  cases cause with
  | invalidControlFlow keyword => exact nomatch h
  | _ => rfl

/-- The run stopped at such a fault. -/
def Halt.isMisplaced : Halt α → Bool
  | .fault e => e.cause.isMisplaced
  | .outOfFuel => false

namespace Watched

open Eval (arguments texts followed sequence optional operation)

/-! ## Rules -/

/-- The end of a computation that keeps closures placed: a result as described, or a fault of
    another kind with all jumps settled. -/
def Meets (Q : β → List (Jump α) → Prop) : EStateM.Result (Halt α) (Watch α) β → Prop
  | .ok b w => w.machine.Placed ∧ Q b w.jumps
  | .error e w => w.machine.Placed ∧ Settled w.jumps ∧ e.isMisplaced = false

/-- From closures placed and jumps as in `P` the computation comes to such an end. -/
def Ensures (P : List (Jump α) → Prop) (p : Watched α β) (Q : β → List (Jump α) → Prop) : Prop :=
  ∀ w : Watch α, w.machine.Placed → P w.jumps → Meets Q (p w)

section Rules

variable {P : List (Jump α) → Prop} {Q : β → List (Jump α) → Prop} {R : γ → List (Jump α) → Prop}
  {p : Watched α β} {f : β → Watched α γ}

theorem pure_ensures {b : β} (h : ∀ jumps, P jumps → Q b jumps) : Ensures P (pure b) Q :=
  fun w hplaced hjumps => ⟨hplaced, h w.jumps hjumps⟩

/-- With all jumps settled, a run may stop. -/
theorem throw_ensures {e : Halt α} (h : e.isMisplaced = false) : Ensures Settled (throw e) Q :=
  fun _ hplaced hjumps => ⟨hplaced, hjumps, h⟩

/-- What leaves the machine as it is makes no jump. -/
theorem Avoids.ensures {p : Eval α β} (h : Avoids Halt.isMisplaced p) :
    Ensures Settled (quiet p) fun _ => Settled := by
  intro w hplaced hjumps
  unfold quiet
  cases hp : p w.machine with
  | ok b m => exact ⟨hplaced, hjumps⟩
  | error e m => exact ⟨hplaced, hjumps, h _ _ _ hp⟩

/-- A change of the machine makes no jump. -/
theorem change_ensures {g : Machine α → Machine α} (hg : Machine.Keeps g) :
    Ensures P (change g) fun _ => P :=
  fun w hplaced hjumps => ⟨hg w.machine hplaced, hjumps⟩

theorem note_ensures {j : Jump α} {Q : PUnit → List (Jump α) → Prop}
    (h : ∀ jumps, P jumps → Q ⟨⟩ (j :: jumps)) : Ensures P (note j) Q :=
  fun w hplaced hjumps => ⟨hplaced, h w.jumps hjumps⟩

/-- The second part starts with the jumps that the first has left. -/
theorem Ensures.bind (h : Ensures P p Q) (hnext : ∀ b, Ensures (Q b) (f b) R) :
    Ensures P (p >>= f) R := by
  intro w hplaced hjumps
  have hfirst := h w hplaced hjumps
  show Meets R (EStateM.bind p f w)
  unfold EStateM.bind
  cases hp : p w with
  | ok b w' =>
    rw [hp] at hfirst
    exact hnext b w' hfirst.1 hfirst.2
  | error e w' =>
    rw [hp] at hfirst
    exact hfirst

/-- Closures are placed in the machine at hand. -/
theorem machine_ensures {f : Machine α → Watched α β} (h : ∀ m, m.Placed → Ensures P (f m) Q) :
    Ensures P (machine >>= f) Q :=
  fun w hplaced hjumps => h w.machine hplaced w hplaced hjumps

/-- A tidy-up makes no jump. -/
theorem Ensures.always (h : Ensures P p Q) {g : Machine α → Machine α} (hg : Machine.Keeps g) :
    Ensures P (always (Watch.change g) p) Q := by
  intro w hplaced hjumps
  have hend := h w hplaced hjumps
  unfold Scriptlet.always
  cases hp : p w with
  | ok b w' =>
    rw [hp] at hend
    exact ⟨hg _ hend.1, hend.2⟩
  | error e w' =>
    rw [hp] at hend
    exact ⟨hg _ hend.1, hend.2⟩

/-- Neither do changes around a part. -/
theorem Ensures.between (h : Ensures P p Q) {before after : Machine α → Machine α}
    (hbefore : Machine.Keeps before) (hafter : Machine.Keeps after) :
    Ensures P (between before after p) Q :=
  (change_ensures hbefore).bind fun _ => h.always hafter

/-- Stopping at the limit on depth comes before any jump is made. -/
theorem Ensures.descend (h : Ensures Settled p Q) (settings : Settings) (site : α) :
    Ensures Settled (descend settings site p) Q := by
  refine machine_ensures fun m _ => ?_
  split
  · exact h.between (fun _ h => h) (fun _ h => h)
  · exact fun w hplaced hjumps => ⟨hplaced, hjumps, rfl⟩

theorem Ensures.inCall (h : Ensures P p Q) : Ensures P (inCall p) Q :=
  h.between (fun _ h => h) (fun _ h => h)

/-- A scope of its own makes no jump. -/
theorem Ensures.inScope {p : ScopeId → Watched α β} (h : ∀ i, Ensures P (p i) Q)
    (settings : Settings) (held : List Value) (parent : ScopeId) (needed : β → List Value) :
    Ensures P (inScope settings held parent needed p) Q := by
  intro w hplaced hjumps
  have hend := h (w.machine.arena.nextSlot parent) (w.change (·.opening parent)) hplaced hjumps
  unfold Watched.inScope
  cases hp : p (w.machine.arena.nextSlot parent) (w.change (·.opening parent)) with
  | ok b w' =>
    rw [hp] at hend
    exact ⟨Machine.endScope_keepsBodies settings _ _ _ hend.1, hend.2⟩
  | error e w' =>
    rw [hp] at hend
    exact ⟨Machine.endScope_keepsBodies settings _ _ _ hend.1, hend.2⟩

/-- Where a computation returns plays no part. -/
theorem Ensures.returning (h : Ensures P p Q) (needed : β → List Value) (held : List Value)
    (scope : ScopeId) : Ensures P (returning needed held scope p) Q := by
  intro w hplaced hjumps
  have hend := h w hplaced hjumps
  unfold Watched.returning
  cases hp : p w with
  | ok b w' =>
    rw [hp] at hend
    exact hend
  | error e w' =>
    rw [hp] at hend
    exact hend

end Rules

/-! ## Lists -/

/-- Jumps stay settled. -/
abbrev Settles (p : Watched α β) : Prop := Ensures Settled p fun _ => Settled

theorem pure_settles (b : β) : Settles (pure b : Watched α β) := pure_ensures fun _ h => h

/-- No jump is on its way between arguments. -/
theorem arguments_settle {eval : List Value → Expr α → Watched α Value}
    (h : ∀ held e, Settles (eval held e)) (es : List (Expr α)) (held : List Value) :
    Settles (arguments eval held es) := by
  induction es generalizing held with
  | nil => exact pure_settles _
  | cons e rest ih =>
    exact (h held e).bind fun v => (ih (v :: held)).bind fun _ => pure_settles _

theorem texts_settle {eval : Expr α → Watched α Value} (h : ∀ e, Settles (eval e))
    (es : List (Expr α)) : Settles (texts eval es) := by
  induction es with
  | nil => exact pure_settles _
  | cons e rest ih => exact (h e).bind fun v => ih.bind fun _ => pure_settles _

theorem optional_settles {eval : Expr α → Watched α Value} (h : ∀ e, Settles (eval e))
    (e : Option (Expr α)) : Settles (optional eval e) := by
  cases e with
  | none => exact pure_settles _
  | some e => exact h e

/-- The first statement that does not end normally ends the list. -/
theorem sequence_ensures {exec : Stmt α → Watched α Flow} {frames : List (Frame α)}
    {body : List (Stmt α)} (h : ∀ s ∈ body, Ensures Settled (exec s) (Pending frames)) :
    Ensures Settled (sequence exec body) (Pending frames) := by
  induction body with
  | nil => exact pure_ensures fun _ => .normal
  | cons s rest ih =>
    obtain ⟨hs, hrest⟩ := List.forall_mem_cons.mp h
    refine hs.bind fun flow => ?_
    cases flow with
    | normal => exact fun w hplaced hjumps => ih hrest w hplaced hjumps.settled
    | breaking | continuing | returning v => exact pure_ensures fun _ h => h

/-! ## Bodies -/

/-- What a loop does with the flow that its body ended with, a `return` apart. -/
theorem land_in_loop (frames : List (Frame α)) (body : List (Stmt α)) (flow : Flow)
    (hflow : flow.values = []) :
    Ensures (Pending (.loop body :: frames) flow) (land (.loop body :: frames) flow)
      fun _ => Settled := by
  cases flow with
  | normal => exact pure_ensures fun _ h => h.settled
  | breaking => exact note_ensures fun _ h => h.landed_in_loop (.inl rfl)
  | continuing => exact note_ensures fun _ h => h.landed_in_loop (.inr rfl)
  | returning v => exact absurd hflow (List.cons_ne_nil v [])

/-- What a call does with the flow that its body ended with. -/
theorem land_in_call (frames : List (Frame α)) (body : List (Stmt α)) (flow : Flow) (site : α) :
    Ensures (Pending (.call body :: frames) flow)
      (do land (.call body :: frames) flow; quiet (Eval.result site flow)) fun _ => Settled := by
  intro w hplaced hjumps
  rcases hjumps.landed_in_call with ⟨rfl, hsettled⟩ | ⟨v, rfl, hsettled⟩
  · exact (pure_avoids Value.nil).ensures w hplaced hsettled
  · exact (pure_avoids v).ensures (w.note _) hplaced hsettled

/-! ## Expressions, calls and statements -/

/-- Everything that stands where it may goes by the law of jumps, under a bound on steps. -/
structure AllLawful (α : Type) (settings : Settings) (fuel : Nat) : Prop where
  eval : ∀ held scope {frames}, Nested frames → ∀ e : Expr α,
    Settles (eval settings fuel held scope frames e)
  call : ∀ held {frames}, Nested frames → ∀ (site : α) f values,
    Settles (call settings fuel held frames site f values)
  exec : ∀ held scope {frames} {s : Stmt α}, Stands frames s →
    Ensures Settled (exec settings fuel held scope frames s) (Pending frames)
  turns : ∀ held scope {frames a} {c : Expr α} {body}, Stands frames (.loop a c body) →
    Ensures Settled (turns settings fuel held scope frames c body) (Pending frames)

section Parts

variable {settings : Settings} {fuel : Nat}

/-- An expression leaves all jumps settled, one case for each kind of node. -/
theorem eval_settles (ih : AllLawful α settings fuel) (held : List Value) (scope : ScopeId)
    {frames : List (Frame α)} (hframes : Nested frames) (e : Expr α) :
    Settles (eval settings (fuel + 1) held scope frames e) := by
  have hpart : ∀ held e, Settles (eval settings fuel held scope frames e) :=
    fun held e => ih.eval held scope hframes e
  rw [eval.eq_def]
  refine Ensures.returning (Ensures.descend ?_ settings e.note) alone held scope
  cases e with
  | literal _ v => exact pure_settles _
  -- an unknown name is a fault, but misplaces no jump
  | name site x => exact (lookUp_avoids rfl).ensures
  | unary site op e =>
    exact (hpart held e).bind fun v =>
      (lift_avoids fun _ h => RuntimeFault.not_misplaced (UnaryOp.blames_operands h)).ensures
  | operation site op left right =>
    refine (hpart held left).bind fun l => ?_
    cases op with
    | logical op =>
      dsimp only
      split
      · -- the left operand may decide: no more is evaluated
        exact pure_settles _
      · exact hpart (l :: held) right
    | binary op =>
      exact (hpart (l :: held) right).bind fun r =>
        (lift_avoids fun _ h => RuntimeFault.not_misplaced (BinaryOp.blames_operands h)).ensures
  | assign _ x e =>
    refine (hpart held e).bind fun v => ?_
    -- the bodies that are stored stay what they are
    have hassign : Machine.Keeps fun m : Machine α => m.assign scope x v := fun _ h => h
    exact (change_ensures hassign).bind fun _ => pure_settles v
  | call site callee args =>
    refine (hpart held callee).bind fun f => ?_
    -- the call settles what its body leaves
    exact (arguments_settle hpart args (f :: held)).bind fun values =>
      ih.call held hframes site f values

/-- A call takes up the `return` of its body; no other jump gets out of a body. -/
theorem call_settles (ih : AllLawful α settings fuel) (held : List Value)
    {frames : List (Frame α)} (hframes : Nested frames) (site : α) (f : Value)
    (values : List Value) : Settles (call settings (fuel + 1) held frames site f values) := by
  rw [call.eq_def]
  cases f with
  | builtin b =>
    have havoids : Avoids Halt.isMisplaced (Eval.callBuiltin site b values) :=
      callBuiltin_avoids (fun _ => RuntimeFault.not_misplaced) fun _ _ _ => rfl
    exact havoids.ensures
  | nil | bool _ | integer _ | float _ | str _ => exact (fail_avoids rfl).ensures
  | function id name =>
    refine machine_ensures fun m hplaced => ?_
    cases hc : m.closure? id with
    | none => exact (fail_avoids rfl).ensures
    | some c =>
      dsimp only
      split
      · exact (fail_avoids rfl).ensures
      · split
        · exact (fail_avoids rfl).ensures
        · -- the body was placed when it was defined, in this program or one before
          have hbody : ∀ scope, Ensures Settled
              (sequence (exec settings fuel (.function id name :: held) scope
                (.call c.body :: frames)) c.body) (Pending (.call c.body :: frames)) :=
            fun scope => sequence_ensures fun s hs =>
              ih.exec (.function id name :: held) scope (.call hframes (hplaced id c hc) hs)
          have hscope := Ensures.inScope (fun scope =>
            (change_ensures (Machine.bindParams_keepsBodies scope c.params values)).bind fun _ =>
              (hbody scope).inCall) settings (.function id name :: held) c.scope Flow.values
          exact hscope.bind fun flow => land_in_call frames c.body flow site

/-- A body in a scope of its own: a jump out of it is still on its way. -/
theorem block_ensures (ih : AllLawful α settings fuel) (held : List Value) (scope : ScopeId)
    {frames : List (Frame α)} {body : List (Stmt α)} (h : ∀ s ∈ body, Stands frames s) :
    Ensures Settled
      (inScope settings held scope Flow.values fun inner =>
        sequence (exec settings fuel held inner frames) body) (Pending frames) :=
  Ensures.inScope (fun inner => sequence_ensures fun s hs => ih.exec held inner (h s hs)) settings
    held scope _

/-- A statement that stands where it may, one case for each kind. -/
theorem exec_ensures (ih : AllLawful α settings fuel) (held : List Value) (scope : ScopeId)
    {frames : List (Frame α)} {s : Stmt α} (h : Stands frames s) :
    Ensures Settled (exec settings (fuel + 1) held scope frames s) (Pending frames) := by
  have heval : ∀ e, Settles (eval settings fuel held scope frames e) :=
    fun e => ih.eval held scope h.written.nested e
  have hnormal : Ensures Settled (pure .normal : Watched α Flow) (Pending frames) :=
    pure_ensures fun _ => .normal
  have hchange : ∀ {f : Machine α → Machine α}, Machine.Keeps f →
      Ensures Settled (do change f; return Flow.normal) (Pending frames) :=
    -- statements that change the machine and leave no jump
    fun hf => (change_ensures hf).bind fun _ => hnormal
  rw [exec.eq_def]
  refine Ensures.returning (Ensures.descend ?_ settings s.note) Flow.values held scope
  cases s with
  | expr _ e => exact (heval e).bind fun _ => hnormal
  | declare _ x e => exact (optional_settles heval e).bind fun v => hchange fun _ h => h
  | print _ args => exact (texts_settle heval args).bind fun parts => hchange fun _ h => h
  | block _ body => exact block_ensures ih held scope fun s hs => h.block hs
  | cond _ condition consequent alternative =>
    refine (heval condition).bind fun c => ?_
    split
    · -- a branch stands in the frames of the conditional
      exact block_ensures ih held scope fun s hs => h.consequent hs
    · cases alternative with
      | none => exact hnormal
      | some branch => exact ih.exec held scope h.alternative
  | loop _ condition body => exact ih.turns held scope h
  | function _ f params body =>
    -- the body is stored with the frame of its own call, so it may return and hold no other jump
    exact hchange (Machine.define_keepsBodies (c := ⟨params, body, scope⟩) h.function f)
  | ret a e =>
    refine (optional_settles heval e).bind fun v => ?_
    -- from here on the jump is pending in its frame
    exact (note_ensures fun _ hjumps => h.ret hjumps v).bind fun _ => pure_ensures fun _ h => h
  | breakLoop a =>
    exact (note_ensures fun _ hjumps => h.breakLoop hjumps).bind fun _ => pure_ensures fun _ h => h
  | continueLoop a =>
    exact (note_ensures fun _ hjumps => h.continueLoop hjumps).bind fun _ =>
      pure_ensures fun _ h => h

/-- A loop takes up `break` and `continue`; a `return` goes on to the call. -/
theorem turns_ensures (ih : AllLawful α settings fuel) (held : List Value) (scope : ScopeId)
    {frames : List (Frame α)} {a : α} {c : Expr α} {body : List (Stmt α)}
    (h : Stands frames (.loop a c body)) :
    Ensures Settled (turns settings (fuel + 1) held scope frames c body) (Pending frames) := by
  rw [turns]
  refine (ih.eval held scope h.written.nested c).bind fun v => ?_
  split
  · refine (block_ensures ih held scope fun s hs => h.loop hs).bind fun flow => ?_
    cases flow with
    | normal => exact (land_in_loop frames body .normal rfl).bind fun _ => ih.turns held scope h
    | continuing =>
      exact (land_in_loop frames body .continuing rfl).bind fun _ => ih.turns held scope h
    | breaking =>
      exact (land_in_loop frames body .breaking rfl).bind fun _ =>
        pure_ensures fun _ => Pending.normal
    | returning v => exact pure_ensures fun _ hjumps => hjumps.passed_on
  · exact pure_ensures fun _ => .normal

/-- **Whatever stands where it may goes by the law of jumps**, under any bound on steps. -/
theorem lawful (α : Type) (settings : Settings) (fuel : Nat) : AllLawful α settings fuel := by
  induction fuel with
  | zero =>
    refine ⟨fun held scope frames _ e => ?_, fun held frames _ site f values => ?_,
      fun held scope frames s _ => ?_, fun held scope frames a c body _ => ?_⟩
    · rw [eval]
      exact throw_ensures rfl
    · rw [call]
      exact throw_ensures rfl
    · rw [exec]
      exact throw_ensures rfl
    · rw [turns]
      exact throw_ensures rfl
  | succ fuel ih => exact ⟨eval_settles ih, call_settles ih, exec_ensures ih, turns_ensures ih⟩

/-- A statement at the top level that is no expression, before those that follow.  A program is in
    no loop and no function, so the statement ends normally. -/
theorem topLevelStmt_settles {body rest : List (Stmt α)} {last : Value} {s : Stmt α}
    (hrest : Settles (topLevel settings fuel [.program body] last rest))
    (hs : Stands [.program body] s) : Settles
      (followed (exec settings fuel [last] Arena.global [.program body] s)
        (topLevel settings fuel [.program body] last rest) fun flow => do
          land [.program body] flow
          quiet (Eval.fail flow.misplaced s.note)) := by
  refine ((lawful α settings fuel).exec [last] Arena.global hs).bind fun flow w hplaced hjumps => ?_
  obtain ⟨rfl, hsettled⟩ := hjumps.normal_in_program
  exact hrest w hplaced hsettled

/-- Top-level statements leave all jumps settled. -/
theorem topLevel_settles {body : List (Stmt α)} (last : Value) {statements : List (Stmt α)}
    (h : ∀ s ∈ statements, Stands [.program body] s) :
    Settles (topLevel settings fuel [.program body] last statements) := by
  have hall := lawful α settings fuel
  induction statements generalizing last with
  | nil =>
    rw [topLevel]
    exact pure_settles _
  | cons s rest ih =>
    obtain ⟨hs, hrest⟩ := List.forall_mem_cons.mp h
    cases s with
    | expr site e =>
      rw [topLevel]
      exact (hall.eval [last] Arena.global .program e).bind fun v => ih v hrest
    | _ => exact topLevelStmt_settles (ih last hrest) hs

end Parts

end Watched

/-! ## Programs -/

namespace Watch

variable {w : Watch α}

/-- Closures are placed and all jumps settled. -/
structure Lawful (w : Watch α) : Prop where
  placed : w.machine.Placed
  settled : Settled w.jumps

/-- **One program**: it misplaces no jump, and leaves all of them settled. -/
theorem run_lawful (settings : Settings) (fuel : Nat) {p : Program α}
    (hp : p.wellPlaced = true) (h : w.Lawful) :
    (∀ e keyword, (w.run settings fuel p).1 = .fault e → e.cause ≠ .invalidControlFlow keyword) ∧
      (w.run settings fuel p).2.Lawful := by
  have hend : Watched.Meets (fun _ => Settled)
      (Watched.program settings fuel p w) :=
    (Watched.topLevel_settles .nil fun s hs => .program hp hs).returning _ _ _ w h.placed h.settled
  unfold run
  split
  · next heq =>
    rw [heq] at hend
    exact ⟨nofun, hend.1, hend.2⟩
  · next e w' heq =>
    -- a fault: its cause is none of a misplaced jump
    rw [heq] at hend
    obtain ⟨hplaced, hsettled, hcause⟩ := hend
    refine ⟨fun e' keyword he hmisplaced => ?_, hplaced, hsettled⟩
    cases he
    have hcause : e.cause.isMisplaced = false := hcause
    rw [hmisplaced] at hcause
    exact nomatch hcause
  · -- a run that was cut short has settled all jumps on its way
    next heq =>
    rw [heq] at hend
    exact ⟨nofun, hend.1, hend.2.1⟩

/-- **Programs one after the other.**  Closures of earlier programs stay placed for later ones. -/
theorem runAll_lawful (settings : Settings) {steps : List (Nat × Program α)}
    (hsteps : ∀ step ∈ steps, step.2.wellPlaced = true) (h : w.Lawful) :
    (∀ e keyword, .fault e ∈ (w.runAll settings steps).1 →
        e.cause ≠ .invalidControlFlow keyword) ∧
      (w.runAll settings steps).2.Lawful := by
  induction steps generalizing w with
  | nil => exact ⟨fun _ _ => (nomatch ·), h⟩
  | cons step rest ih =>
    obtain ⟨fuel, p⟩ := step
    obtain ⟨hp, hrest⟩ := List.forall_mem_cons.mp hsteps
    obtain ⟨hfirst, hlawful⟩ := run_lawful settings fuel hp h
    obtain ⟨hothers, hend⟩ := ih hrest hlawful
    refine ⟨fun e keyword hmem => ?_, hend⟩
    rcases List.mem_cons.mp hmem with heq | hmem
    · exact hfirst e keyword heq.symm
    · exact hothers e keyword hmem

end Watch

namespace Machine

/-- **Parsed programs never misplace a jump.**  Run programs that were parsed one after another on a
    fresh machine, each with a bound on its steps, also after faults.  None of them fails for a
    `break`, `continue` or `return` with nothing around it to end; and every such jump made on the
    way lands where it may, before anything else is evaluated: `break` and `continue` in the loop
    they are written in, in the body running innermost, and `return` in the call around. -/
theorem jumps_land (settings : Settings) (steps : List (Nat × Program Origin))
    (h : ∀ step ∈ steps, ∃ tokens, parse tokens = .ok step.2) :
    let watched := (Watch.start initial).runAll settings steps
    (watched.1, watched.2.machine) = initial.runAll settings steps ∧
    (∀ e keyword, .fault e ∈ (initial.runAll settings steps).1 →
      e.cause ≠ .invalidControlFlow keyword) ∧
    Settled watched.2.jumps := by
  intro watched
  have hplaced : ∀ step ∈ steps, step.2.wellPlaced = true := by
    intro step hstep
    obtain ⟨tokens, hparse⟩ := h step hstep
    exact (parse_sound hparse).2
  have hsame := Watch.runAll_eq settings steps (.start initial)
  obtain ⟨hfaults, hend⟩ := Watch.runAll_lawful (w := .start initial) settings hplaced
    ⟨bodies_initial, .none⟩
  refine ⟨hsame, fun e keyword hmem => hfaults e keyword ?_, hend.settled⟩
  have houtcomes : watched.1 = (initial.runAll settings steps).1 := congrArg Prod.fst hsame
  exact houtcomes ▸ hmem

/-- A function whose loop goes on once, and then returns. -/
def countToThree : String :=
  "fn f(n) \x7b while true \x7b n = n + 1\n if n < 3 \x7b continue \x7d\n return n \x7d \x7d"

/-- A loop that calls the function and is left at once. -/
def countOnce : String := "while true \x7b print(f(1))\n break \x7d"

/-- A program defines a function and a second one calls it: three jumps, and as many landings. -/
theorem jumps_land_countOnce : ∃ p q,
    parseSource countToThree = .ok p ∧ parseSource countOnce = .ok q ∧
    (let watched := (Watch.start initial).runAll {} [(9, p), (19, q)]
    watched.2.machine.output = #["3"] ∧ watched.2.jumps.length = 6 ∧ Settled watched.2.jumps) := by
  -- both runs, evaluated: two numbers tell the rest
  have hrun : ((parseSource countToThree).toOption.bind fun p =>
      (parseSource countOnce).toOption.map fun q =>
        let watched := (Watch.start initial).runAll {} [(9, p), (19, q)]
        (watched.2.machine.output, watched.2.jumps.length)) = some (#["3"], 6) := by
    decide +kernel
  cases hp : parseSource countToThree with
  | error e => rw [hp] at hrun; exact nomatch hrun
  | ok p =>
    cases hq : parseSource countOnce with
    | error e => rw [hp, hq] at hrun; exact nomatch hrun
    | ok q =>
      rw [hp, hq] at hrun
      obtain ⟨houtput, hjumps⟩ := Prod.mk.inj (Option.some.inj hrun)
      obtain ⟨tokens, -, hparse⟩ := parseSource_eq_ok.mp hp
      obtain ⟨tokens', -, hparse'⟩ := parseSource_eq_ok.mp hq
      have hsteps : ∀ step ∈ [(9, p), (19, q)], ∃ tokens, parse tokens = .ok step.2 :=
        List.forall_mem_cons.mpr
          ⟨⟨tokens, hparse⟩, List.forall_mem_singleton.mpr ⟨tokens', hparse'⟩⟩
      exact ⟨p, q, rfl, rfl, houtput, hjumps, (jumps_land {} [(9, p), (19, q)] hsteps).2.2⟩

end Machine

end Scriptlet
