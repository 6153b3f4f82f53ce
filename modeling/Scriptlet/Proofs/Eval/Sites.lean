/-
  Sites: the nodes that faults are reported at.

  1. **Notes** (`Expr.notes`, `Stmt.notes`) — the notes of all nodes of a tree.
  2. **Closures** (`Machine.Bodies`) — the body of a function outlives the statement that defined it,
     so a property of the bodies run is one of all closures kept.
  3. **Rules** (`Keeps`) — a computation that keeps all bodies noted as in `P` and faults only at
     sites as in `P`.
  4. **The crux (`site_mem_notes`)** — by induction on the bound on steps, whatever a program does,
     also in functions it calls long after, a fault is reported at one of its own nodes.
-/
import Scriptlet.Proofs.Eval.Simulation

namespace Scriptlet

variable {α β γ : Type}

/-! ## Notes -/

mutual

/-- The notes of all nodes of an expression. -/
def Expr.notes : Expr α → List α
  | .literal a _ | .name a _ => [a]
  | .unary a _ e => a :: e.notes
  | .operation a _ l r => a :: (l.notes ++ r.notes)
  | .assign a _ e => a :: e.notes
  | .call a f args => a :: (f.notes ++ Expr.allNotes args)

/-- The notes of several expressions. -/
def Expr.allNotes : List (Expr α) → List α
  | [] => []
  | e :: es => e.notes ++ Expr.allNotes es

end

/-- The notes of an expression that may be missing. -/
def Expr.notes? : Option (Expr α) → List α
  | none => []
  | some e => e.notes

mutual

/-- The notes of all nodes of a statement. -/
def Stmt.notes : Stmt α → List α
  | .expr a e => a :: e.notes
  | .declare a _ e | .ret a e => a :: Expr.notes? e
  | .print a args => a :: Expr.allNotes args
  | .block a body | .function a _ _ body => a :: Stmt.allNotes body
  | .cond a c t none => a :: (c.notes ++ Stmt.allNotes t)
  | .cond a c t (some branch) => a :: (c.notes ++ Stmt.allNotes t ++ branch.notes)
  | .loop a c body => a :: (c.notes ++ Stmt.allNotes body)
  | .breakLoop a | .continueLoop a => [a]

/-- The notes of several statements. -/
def Stmt.allNotes : List (Stmt α) → List α
  | [] => []
  | s :: rest => s.notes ++ Stmt.allNotes rest

end

/-- The notes of all nodes of a program. -/
def Program.notes (p : Program α) : List α := Stmt.allNotes p.statements

section Noted

variable {P : α → Prop}

/-- A node's own note is among those of its tree. -/
theorem Expr.note_noted {e : Expr α} (h : ∀ a ∈ e.notes, P a) : P e.note := by
  cases e <;> exact h _ (List.mem_cons_self ..)

theorem Stmt.note_noted {s : Stmt α} (h : ∀ a ∈ s.notes, P a) : P s.note := by
  match s with
  | .expr _ _ | .declare _ _ _ | .ret _ _ | .print _ _ | .block _ _ | .loop _ _ _
  | .function _ _ _ _ | .cond _ _ _ none | .cond _ _ _ (some _) | .breakLoop _
  | .continueLoop _ => exact h _ (List.mem_cons_self ..)

/-- The notes of a list are those of its expressions. -/
theorem Expr.allNoted_iff {es : List (Expr α)} :
    (∀ a ∈ Expr.allNotes es, P a) ↔ ∀ e ∈ es, ∀ a ∈ e.notes, P a := by
  induction es with
  | nil => exact iff_of_true (List.forall_mem_nil _) (List.forall_mem_nil _)
  | cons e es ih => rw [Expr.allNotes, List.forall_mem_append, List.forall_mem_cons, ih]

/-- The notes of a body are those of its statements. -/
theorem Stmt.allNoted_iff {body : List (Stmt α)} :
    (∀ a ∈ Stmt.allNotes body, P a) ↔ ∀ s ∈ body, ∀ a ∈ s.notes, P a := by
  induction body with
  | nil => exact iff_of_true (List.forall_mem_nil _) (List.forall_mem_nil _)
  | cons s rest ih => rw [Stmt.allNotes, List.forall_mem_append, List.forall_mem_cons, ih]

end Noted

/-! ## Closures -/

namespace Machine

/-- The body of every closure kept has the property `B`. -/
def Bodies (B : List (Stmt α) → Prop) (m : Machine α) : Prop :=
  ∀ id c, m.closure? id = some c → B c.body

/-- The change keeps bodies so. -/
def KeepsBodies (B : List (Stmt α) → Prop) (f : Machine α → Machine α) : Prop :=
  ∀ m, m.Bodies B → (f m).Bodies B

variable {B : List (Stmt α) → Prop}

/-- A fresh machine keeps no closures. -/
theorem bodies_initial : (initial : Machine α).Bodies B := fun _ _ hc => nomatch hc

/-- Binding arguments makes no closure. -/
theorem bindParams_keepsBodies (scope : ScopeId) (params : List String) (values : List Value) :
    KeepsBodies B (Eval.bindParams scope params values) :=
  fun _ h => Eval.bindParams_keeps (fun _ _ _ h => h) params values h

/-- A definition adds one closure, whose body is that of the statement. -/
theorem define_keepsBodies {c : Closure α} (hbody : B c.body) (f : String) :
    KeepsBodies B fun m => (m.define c).2.declare c.scope f (.function (m.define c).1 f) := by
  intro m h id d hd
  dsimp only at hd
  rw [define_eq] at hd
  rcases Slots.eq_or_at?_of_fill (x := c) hd with rfl | hd
  · exact hbody
  · exact h id d hd

/-- A collection drops closures and makes none. -/
theorem endScope_keepsBodies (settings : Settings) (held : List Value) (i : ScopeId) :
    KeepsBodies B fun m : Machine α => m.endScope settings held i := by
  intro m h
  unfold endScope
  split
  · dsimp only
    split
    · intro id c hc
      rw [closure?_collect] at hc
      split at hc
      · exact nomatch hc
      · exact h id c hc
    · exact h
  · exact h

end Machine

namespace Eval

/-! ## Rules -/

/-- All nodes of the statements are noted as in `P`. -/
def Inside (P : α → Prop) (body : List (Stmt α)) : Prop := ∀ s ∈ body, ∀ a ∈ s.notes, P a

/-- The end of a computation that keeps all bodies inside `P`: a result, or a fault inside `P`. -/
def Remains (P : α → Prop) : EStateM.Result (Halt α) (Machine α) β → Prop
  | .ok _ m => m.Bodies (Inside P)
  | .error e m => m.Bodies (Inside P) ∧ ∀ fault, e = .fault fault → P fault.site

/-- From bodies inside `P` the computation comes to such an end. -/
def Keeps (P : α → Prop) (p : Eval α β) : Prop :=
  ∀ m : Machine α, m.Bodies (Inside P) → Remains P (p m)

section Rules

variable {P : α → Prop} {p : Eval α β} {f : β → Eval α γ}

theorem pure_keeps (b : β) : Keeps P (pure b : Eval α β) := fun _ h => h

/-- The bound on steps is no fault, and has no site. -/
theorem outOfFuel_keeps : Keeps P (throw .outOfFuel : Eval α β) := fun _ h => ⟨h, nofun⟩

/-- A fault is at the node that is evaluated. -/
theorem fail_keeps (cause : RuntimeFault) {site : α} (hsite : P site) :
    Keeps P (fail cause site : Eval α β) := by
  intro m h
  refine ⟨h, ?_⟩
  rintro fault hfault
  cases hfault
  exact hsite

/-- An operator is blamed at the node it is applied at. -/
theorem lift_keeps {site : α} (hsite : P site) (r : Except RuntimeFault β) :
    Keeps P (lift site r) := by
  cases r with
  | ok b => exact pure_keeps b
  | error cause => exact fail_keeps cause hsite

theorem modify_keeps {g : Machine α → Machine α} (h : Machine.KeepsBodies (Inside P) g) :
    Keeps P (modify g) := h

/-- Bodies are inside `P` in the machine at hand. -/
theorem get_keeps {f : Machine α → Eval α β} (h : ∀ m, m.Bodies (Inside P) → Keeps P (f m)) :
    Keeps P (get >>= f) := fun m hm => h m hm m hm

/-- The second part starts with the bodies that the first has kept. -/
theorem Keeps.bind (h : Keeps P p) (hnext : ∀ b, Keeps P (f b)) : Keeps P (p >>= f) := by
  intro m hm
  have hfirst := h m hm
  show Remains P (EStateM.bind p f m)
  unfold EStateM.bind
  cases hp : p m with
  | ok b m' =>
    rw [hp] at hfirst
    exact hnext b m' hfirst
  | error e m' =>
    rw [hp] at hfirst
    exact hfirst

/-- The tidy-up is done after a fault as well, and the fault stays where it was. -/
theorem Keeps.always (h : Keeps P p) {tidy : Machine α → Machine α}
    (htidy : Machine.KeepsBodies (Inside P) tidy) : Keeps P (always tidy p) := by
  intro m hm
  have hend := h m hm
  unfold Scriptlet.always
  cases hp : p m with
  | ok b m' =>
    rw [hp] at hend
    exact htidy m' hend
  | error e m' =>
    rw [hp] at hend
    exact ⟨htidy m' hend.1, hend.2⟩

/-- Counted while it goes on. -/
theorem Keeps.counted (h : Keeps P p) {count tidy : Machine α → Machine α}
    (hcount : Machine.KeepsBodies (Inside P) count)
    (htidy : Machine.KeepsBodies (Inside P) tidy) : Keeps P (do modify count; Scriptlet.always tidy p) :=
  (modify_keeps hcount).bind fun _ => h.always htidy

/-- A level too many is blamed on the node that would take it. -/
theorem Keeps.descend (h : Keeps P p) (settings : Settings) {site : α} (hsite : P site) :
    Keeps P (descend settings site p) := by
  refine get_keeps fun m _ => ?_
  split
  · exact h.counted (fun _ h => h) fun _ h => h
  · exact fail_keeps _ hsite

theorem Keeps.inCall (h : Keeps P p) : Keeps P (inCall p) :=
  h.counted (fun _ h => h) fun _ h => h

/-- Neither opening nor ending a scope makes a closure. -/
theorem Keeps.inScope {p : ScopeId → Eval α β} (h : ∀ i, Keeps P (p i)) (settings : Settings)
    (held : List Value) (parent : ScopeId) (needed : β → List Value) :
    Keeps P (inScope settings held parent needed p) := by
  intro m hm
  rw [inScope_eq]
  have hend := h (m.arena.nextSlot parent) (m.opening parent) hm
  cases hp : p (m.arena.nextSlot parent) (m.opening parent) with
  | ok b m' =>
    rw [hp] at hend
    exact Machine.endScope_keepsBodies settings _ _ m' hend
  | error e m' =>
    rw [hp] at hend
    exact ⟨Machine.endScope_keepsBodies settings _ _ m' hend.1, hend.2⟩

/-! ## Lists -/

/-- Arguments are nodes of the call, so the notes are asked of each. -/
theorem arguments_keep {eval : List Value → Expr α → Eval α Value} {es : List (Expr α)}
    (h : ∀ held, ∀ e ∈ es, Keeps P (eval held e)) (held : List Value) :
    Keeps P (arguments eval held es) := by
  induction es generalizing held with
  | nil => exact pure_keeps _
  | cons e rest ih =>
    refine (h held e (List.mem_cons_self ..)).bind fun v => ?_
    refine (ih (fun held e he => h held e (List.mem_cons_of_mem _ he)) (v :: held)).bind fun _ => ?_
    exact pure_keeps _

theorem texts_keep {eval : Expr α → Eval α Value} {es : List (Expr α)}
    (h : ∀ e ∈ es, Keeps P (eval e)) : Keeps P (texts eval es) := by
  induction es with
  | nil => exact pure_keeps _
  | cons e rest ih =>
    obtain ⟨he, hrest⟩ := List.forall_mem_cons.mp h
    exact he.bind fun v => (ih hrest).bind fun _ => pure_keeps _

/-- What a statement does, and what those after it do. -/
theorem sequence_keeps {exec : Stmt α → Eval α Flow} {body : List (Stmt α)}
    (h : ∀ s ∈ body, Keeps P (exec s)) : Keeps P (sequence exec body) := by
  induction body with
  | nil => exact pure_keeps _
  | cons s rest ih =>
    obtain ⟨hs, hrest⟩ := List.forall_mem_cons.mp h
    refine hs.bind fun flow => ?_
    cases flow with
    | normal => exact ih hrest
    | breaking | continuing | returning v => exact pure_keeps _

theorem optional_keeps {eval : Expr α → Eval α Value} {e : Option (Expr α)}
    (h : ∀ v, e = some v → Keeps P (eval v)) : Keeps P (optional eval e) := by
  cases e with
  | none => exact pure_keeps _
  | some e => exact h e rfl

/-- A built-in function faults at the call. -/
theorem callBuiltin_keeps {site : α} (hsite : P site) (b : Builtin) (values : List Value) :
    Keeps P (callBuiltin site b values) := by
  match values with
  | [v] => exact lift_keeps hsite _
  | [] | _ :: _ :: _ => exact fail_keeps _ hsite

/-- A jump out of a body is a fault of the call. -/
theorem result_keeps {site : α} (hsite : P site) (flow : Flow) :
    Keeps P (result site flow : Eval α Value) := by
  cases flow with
  | normal => exact pure_keeps _
  | returning v => exact pure_keeps v
  | breaking | continuing => exact fail_keeps _ hsite

end Rules

/-! ## Expressions, calls and statements -/

/-- Everything noted as in `P` keeps to it, under a bound on steps. -/
structure AllKeep (P : α → Prop) (settings : Settings) (fuel : Nat) : Prop where
  eval : ∀ held scope (e : Expr α), (∀ a ∈ e.notes, P a) → Keeps P (eval settings fuel held scope e)
  call : ∀ held site f values, P site → Keeps P (call settings fuel held site f values)
  exec : ∀ held scope (s : Stmt α), (∀ a ∈ s.notes, P a) → Keeps P (exec settings fuel held scope s)
  turns : ∀ held scope (c : Expr α) body, (∀ a ∈ c.notes, P a) → Inside P body →
    Keeps P (turns settings fuel held scope c body)

section Parts

variable {P : α → Prop} {settings : Settings} {fuel : Nat}

/-- An expression whose nodes are noted as in `P`, one case for each kind of node. -/
theorem eval_keeps (ih : AllKeep P settings fuel) (held : List Value) (scope : ScopeId) (e : Expr α)
    (h : ∀ a ∈ e.notes, P a) : Keeps P (eval settings (fuel + 1) held scope e) := by
  have hnote := Expr.note_noted h
  rw [eval.eq_def]
  refine Keeps.descend ?_ settings hnote
  cases e with
  | literal _ v => exact pure_keeps _
  | name site x =>
    refine get_keeps fun m _ => ?_
    split
    · exact pure_keeps _
    · -- an unknown name is reported at the node of the name itself
      exact fail_keeps _ hnote
  | unary site op e =>
    obtain ⟨-, he⟩ := List.forall_mem_cons.mp h
    exact (ih.eval held scope e he).bind fun v => lift_keeps hnote _
  | operation site op left right =>
    obtain ⟨-, hparts⟩ := List.forall_mem_cons.mp h
    obtain ⟨hleft, hright⟩ := List.forall_mem_append.mp hparts
    refine (ih.eval held scope left hleft).bind fun l => ?_
    cases op with
    | logical op =>
      -- the left operand may decide, which cannot fail
      dsimp only
      split
      · exact pure_keeps _
      · exact ih.eval (l :: held) scope right hright
    | binary op =>
      -- a fault of an operator has the site of the operation, not of an operand
      exact (ih.eval (l :: held) scope right hright).bind fun r => lift_keeps hnote _
  | assign site x e =>
    obtain ⟨-, he⟩ := List.forall_mem_cons.mp h
    refine (ih.eval held scope e he).bind fun v => ?_
    -- an assignment touches no closure
    have hassign : Machine.KeepsBodies (Inside P) fun m => m.assign scope x v := fun _ h => h
    exact (modify_keeps hassign).bind fun _ => pure_keeps v
  | call site callee args =>
    obtain ⟨-, hparts⟩ := List.forall_mem_cons.mp h
    obtain ⟨hcallee, hargs⟩ := List.forall_mem_append.mp hparts
    refine (ih.eval held scope callee hcallee).bind fun f => ?_
    have harguments : ∀ held, ∀ e ∈ args, Keeps P (eval settings fuel held scope e) :=
      fun held e he => ih.eval held scope e (Expr.allNoted_iff.mp hargs e he)
    -- the call has the site of the whole node, and the body notes of its own
    exact (arguments_keep harguments (f :: held)).bind fun values =>
      ih.call held site f values hnote

/-- A call: the body comes from a closure, so its nodes are noted as in `P` whatever the call. -/
theorem call_keeps (ih : AllKeep P settings fuel) (held : List Value) (site : α) (f : Value)
    (values : List Value) (hsite : P site) :
    Keeps P (call settings (fuel + 1) held site f values) := by
  rw [call.eq_def]
  cases f with
  | builtin b => exact callBuiltin_keeps hsite b values
  | nil | bool _ | integer _ | float _ | str _ => exact fail_keeps _ hsite
  | function id name =>
    refine get_keeps fun m hm => ?_
    cases hc : m.closure? id with
    | none => exact fail_keeps _ hsite
    | some c =>
      dsimp only
      split
      · exact fail_keeps _ hsite
      · split
        · exact fail_keeps _ hsite
        · -- the body was inside `P` when it was defined
          have hbody : ∀ scope, Keeps P
              (sequence (exec settings fuel (.function id name :: held) scope) c.body) :=
            fun scope => sequence_keeps fun s hs => ih.exec _ scope s (hm id c hc s hs)
          have hscope := Keeps.inScope (fun scope =>
            (modify_keeps (Machine.bindParams_keepsBodies scope c.params values)).bind fun _ =>
              (hbody scope).inCall) settings (.function id name :: held) c.scope Flow.values
          exact hscope.bind fun flow => result_keeps hsite flow

/-- A body in a scope of its own. -/
theorem block_keeps (ih : AllKeep P settings fuel) (held : List Value) (scope : ScopeId)
    {body : List (Stmt α)} (h : Inside P body) :
    Keeps P (inScope settings held scope Flow.values fun inner =>
      sequence (exec settings fuel held inner) body) :=
  Keeps.inScope (fun inner => sequence_keeps fun s hs => ih.exec held inner s (h s hs)) settings
    held scope _

/-- A value that may be missing has no nodes then. -/
theorem optionalExpr_keeps (ih : AllKeep P settings fuel) (held : List Value) (scope : ScopeId)
    {e : Option (Expr α)} (h : ∀ a ∈ Expr.notes? e, P a) :
    Keeps P (optional (eval settings fuel held scope) e) := by
  refine optional_keeps fun v hv => ih.eval held scope v ?_
  rw [hv] at h
  exact h

/-- A statement whose nodes are noted as in `P`, one case for each kind. -/
theorem exec_keeps (ih : AllKeep P settings fuel) (held : List Value) (scope : ScopeId) (s : Stmt α)
    (h : ∀ a ∈ s.notes, P a) : Keeps P (exec settings (fuel + 1) held scope s) := by
  have hnote := Stmt.note_noted h
  -- statements that change the machine, and then end as usual
  have hchange : ∀ {g : Machine α → Machine α}, Machine.KeepsBodies (Inside P) g →
      Keeps P (do modify g; return Flow.normal) :=
    fun hg => (modify_keeps hg).bind fun _ => pure_keeps _
  rw [exec.eq_def]
  refine Keeps.descend ?_ settings hnote
  cases s with
  | expr _ e =>
    obtain ⟨-, he⟩ := List.forall_mem_cons.mp h
    exact (ih.eval held scope e he).bind fun _ => pure_keeps _
  | declare _ x e =>
    obtain ⟨-, he⟩ := List.forall_mem_cons.mp h
    exact (optionalExpr_keeps ih held scope he).bind fun v => hchange fun _ h => h
  | print _ args =>
    obtain ⟨-, hargs⟩ := List.forall_mem_cons.mp h
    have htexts : ∀ e ∈ args, Keeps P (eval settings fuel held scope e) :=
      fun e he => ih.eval held scope e (Expr.allNoted_iff.mp hargs e he)
    exact (texts_keep htexts).bind fun parts => hchange fun _ h => h
  | block _ body =>
    obtain ⟨-, hbody⟩ := List.forall_mem_cons.mp h
    exact block_keeps ih held scope (Stmt.allNoted_iff.mp hbody)
  | cond _ condition consequent alternative =>
    cases alternative with
    | none =>
      obtain ⟨-, hparts⟩ := List.forall_mem_cons.mp h
      obtain ⟨hcondition, hconsequent⟩ := List.forall_mem_append.mp hparts
      refine (ih.eval held scope condition hcondition).bind fun c => ?_
      split
      · exact block_keeps ih held scope (Stmt.allNoted_iff.mp hconsequent)
      · exact pure_keeps _
    | some branch =>
      obtain ⟨-, hparts⟩ := List.forall_mem_cons.mp h
      obtain ⟨hparts, hbranch⟩ := List.forall_mem_append.mp hparts
      obtain ⟨hcondition, hconsequent⟩ := List.forall_mem_append.mp hparts
      refine (ih.eval held scope condition hcondition).bind fun c => ?_
      split
      · exact block_keeps ih held scope (Stmt.allNoted_iff.mp hconsequent)
      · exact ih.exec held scope branch hbranch
  | loop _ condition body =>
    obtain ⟨-, hparts⟩ := List.forall_mem_cons.mp h
    obtain ⟨hcondition, hbody⟩ := List.forall_mem_append.mp hparts
    exact ih.turns held scope condition body hcondition (Stmt.allNoted_iff.mp hbody)
  | function _ f params body =>
    obtain ⟨-, hbody⟩ := List.forall_mem_cons.mp h
    -- what a call may run is noted when the function is defined
    have hinside : Inside P body := Stmt.allNoted_iff.mp hbody
    exact hchange (Machine.define_keepsBodies (c := ⟨params, body, scope⟩) hinside f)
  | ret _ e =>
    obtain ⟨-, he⟩ := List.forall_mem_cons.mp h
    exact (optionalExpr_keeps ih held scope he).bind fun v => pure_keeps _
  | breakLoop _ => exact pure_keeps _
  | continueLoop _ => exact pure_keeps _

/-- A loop: condition, body and the turns that follow. -/
theorem turns_keep (ih : AllKeep P settings fuel) (held : List Value) (scope : ScopeId) (c : Expr α)
    (body : List (Stmt α)) (hc : ∀ a ∈ c.notes, P a) (hbody : Inside P body) :
    Keeps P (turns settings (fuel + 1) held scope c body) := by
  rw [turns]
  refine (ih.eval held scope c hc).bind fun v => ?_
  split
  · refine (block_keeps ih held scope hbody).bind fun flow => ?_
    cases flow with
    | breaking | returning _ => exact pure_keeps _
    | normal | continuing => exact ih.turns held scope c body hc hbody
  · exact pure_keeps _

/-- **Whatever is noted as in `P` faults only there**, under any bound on steps. -/
theorem allKeep (P : α → Prop) (settings : Settings) (fuel : Nat) : AllKeep P settings fuel := by
  induction fuel with
  | zero =>
    refine ⟨fun _ _ _ _ => ?_, fun _ _ _ _ _ => ?_, fun _ _ _ _ => ?_, fun _ _ _ _ _ _ => ?_⟩
    · rw [eval]
      exact outOfFuel_keeps
    · rw [call]
      exact outOfFuel_keeps
    · rw [exec]
      exact outOfFuel_keeps
    · rw [turns]
      exact outOfFuel_keeps
  | succ fuel ih => exact ⟨eval_keeps ih, call_keeps ih, exec_keeps ih, turns_keep ih⟩

/-- A statement at the top level that is no expression, before those that follow. -/
theorem topLevelStmt_keeps {last : Value} {rest : List (Stmt α)}
    (hrest : Keeps P (topLevel settings fuel last rest)) {s : Stmt α} (h : ∀ a ∈ s.notes, P a) :
    Keeps P (followed (exec settings fuel [last] Arena.global s)
      (topLevel settings fuel last rest) fun flow => fail flow.misplaced s.note) := by
  refine ((allKeep P settings fuel).exec [last] Arena.global s h).bind fun flow => ?_
  cases flow with
  | normal => exact hrest
  | breaking | continuing | returning _ => exact fail_keeps _ (Stmt.note_noted h)

/-- Top-level statements, one after another. -/
theorem topLevel_keeps (last : Value) {statements : List (Stmt α)} (h : Inside P statements) :
    Keeps P (topLevel settings fuel last statements) := by
  induction statements generalizing last with
  | nil =>
    rw [topLevel]
    exact pure_keeps _
  | cons s rest ih =>
    obtain ⟨hs, hrest⟩ := List.forall_mem_cons.mp h
    cases s with
    | expr site e =>
      rw [topLevel]
      obtain ⟨-, he⟩ := List.forall_mem_cons.mp hs
      exact ((allKeep P settings fuel).eval [last] Arena.global e he).bind fun v => ih v hrest
    | _ => exact topLevelStmt_keeps (ih last hrest) hs

end Parts

end Eval

/-- **A program faults at one of its own nodes.** -/
theorem Machine.site_mem_notes {settings : Settings} {fuel : Nat} {p : Program α}
    {e : RuntimeError α} {m : Machine α}
    (h : (initial : Machine α).run settings fuel p = (.fault e, m)) : e.site ∈ p.notes := by
  have hinside : Eval.Inside (· ∈ p.notes) p.statements :=
    Stmt.allNoted_iff.mp fun _ ha => ha
  have hrun : Eval.Remains (· ∈ p.notes) (Eval.topLevel settings fuel .nil p.statements initial) :=
    Eval.topLevel_keeps .nil hinside initial bodies_initial
  unfold run at h
  split at h
  · exact nomatch (Prod.mk.inj h).1
  · next e' m' heq =>
    rw [heq] at hrun
    obtain ⟨he, -⟩ := Prod.mk.inj h
    injection he with he
    rw [← he]
    exact hrun.2 e' rfl
  · exact nomatch (Prod.mk.inj h).1

end Scriptlet
