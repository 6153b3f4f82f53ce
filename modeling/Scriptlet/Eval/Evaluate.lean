/-
  Evaluation: running program trees on a machine.

  Expressions give a value; statements end normally or with a jump that some enclosing loop or call
  takes up.  Every expression and statement counts as one level of depth while it is evaluated.
  Blocks, branches, loop bodies and calls run in a scope of their own, which ends on every way out.

  A program may run for ever, so evaluation goes by recursion on a bound (`fuel`) on the steps
  inside one another, a turn of a loop counting as one; reaching the bound is `Halt.outOfFuel`, and
  a result does not depend on the bound that allows it.
-/
import Scriptlet.Eval.Machine
import Scriptlet.Eval.Operators

namespace Scriptlet

/-- How a statement ends. -/
inductive Flow where
  | normal
  | breaking
  | continuing
  | returning (value : Value)

namespace Flow

/-- The value that a flow carries. -/
def values : Flow → List Value
  | returning v => [v]
  | _ => []

/-- The fault of a flow that nothing takes up. -/
def misplaced : Flow → RuntimeFault
  | breaking => .invalidControlFlow .breakKw
  | continuing => .invalidControlFlow .continueKw
  | normal | returning _ => .invalidControlFlow .returnKw

end Flow

namespace Eval

variable {α : Type}

/-! ## Parts

  How the parts of an expression or a statement follow one another, whatever evaluates them. -/

section Parts

variable {M : Type → Type} [Monad M]

/-- The values of arguments from left to right.  While one is evaluated, the values before it are
    held. -/
def arguments (eval : List Value → Expr α → M Value) (held : List Value) :
    List (Expr α) → M (List Value)
  | [] => pure []
  | e :: rest => do
    let v ← eval held e
    let others ← arguments eval (v :: held) rest
    return v :: others

/-- The texts of values from left to right; none of the values is held. -/
def texts (eval : Expr α → M Value) : List (Expr α) → M (List String)
  | [] => pure []
  | e :: rest => do
    let v ← eval e
    let others ← texts eval rest
    return v.text :: others

/-- What comes after a statement: the rest if it ends normally, and else what `stop` says. -/
def followed {β : Type} (exec : M Flow) (rest : M β) (stop : Flow → M β) : M β := do
  match ← exec with
  | .normal => rest
  | flow => stop flow

/-- Statements one after the other, up to the first that does not end normally. -/
def sequence (exec : Stmt α → M Flow) : List (Stmt α) → M Flow
  | [] => pure .normal
  | s :: rest => followed (exec s) (sequence exec rest) pure

/-- The value of an optional expression; nil without one. -/
def optional (eval : Expr α → M Value) : Option (Expr α) → M Value
  | none => pure .nil
  | some e => eval e

/-- The value of an infix operation.  While the right operand is evaluated, the left value is held;
    a logical operator that is decided by the left value skips the right operand. -/
def operation (eval : List Value → Expr α → M Value) (apply : BinaryOp → Value → Value → M Value)
    (held : List Value) (op : Operator) (left right : Expr α) : M Value := do
  let l ← eval held left
  match op with
  | .logical op => if op.decidedBy l then return l else eval (l :: held) right
  | .binary op =>
    let r ← eval (l :: held) right
    apply op l r

end Parts

/-! ## Names and functions -/

/-- The value that a name is bound to. -/
def lookUp (site : α) (scope : ScopeId) (x : String) : Eval α Value := do
  match (← get).arena.get? scope x with
  | some v => return v
  | none => fail (.undefinedName x) site

/-- Binds the parameters of a call to its arguments. -/
def bindParams (scope : ScopeId) (params : List String) (values : List Value) (m : Machine α) :
    Machine α :=
  (params.zip values).foldl (fun m entry => m.declare scope entry.1 entry.2) m

/-- Defines a function in a scope and binds its name there. -/
def defineFunction (scope : ScopeId) (name : String) (params : List String) (body : List (Stmt α)) :
    Eval α Unit :=
  modify fun m =>
    let (id, m) := m.define ⟨params, body, scope⟩
    m.declare scope name (.function id name)

/-- A call of a built-in function. -/
def callBuiltin (site : α) (b : Builtin) (values : List Value) : Eval α Value :=
  match values with
  | [v] => lift site (b.apply v)
  | _ => fail (.arity b.name b.arity values.length) site

/-- What a call gives when its body ends. -/
def result (site : α) : Flow → Eval α Value
  | .normal => pure .nil
  | .returning v => pure v
  | flow => fail flow.misplaced site

/-! ## Expressions and statements -/

mutual

/-- The value of an expression in a scope, while `held` values are still needed. -/
def eval (settings : Settings) : Nat → List Value → ScopeId → Expr α → Eval α Value
  | 0, _, _, _ => throw .outOfFuel
  | fuel + 1, held, scope, e =>
    descend settings e.note <|
      match e with
      | .literal _ v => pure v.value
      | .name site x => lookUp site scope x
      | .unary site op e => do
        let v ← eval settings fuel held scope e
        lift site (op.apply v)
      | .operation site op left right =>
        operation (fun held e => eval settings fuel held scope e)
          (fun op l r => lift site (op.apply l r)) held op left right
      | .assign _ x e => do
        let v ← eval settings fuel held scope e
        modify fun m => m.assign scope x v
        return v
      | .call site callee args => do
        let f ← eval settings fuel held scope callee
        let values ←
          arguments (fun held e => eval settings fuel held scope e) (f :: held) args
        call settings fuel held site f values

/-- The value of a call; its arguments are bound in the new scope, and the callee is held. -/
def call (settings : Settings) : Nat → List Value → α → Value → List Value → Eval α Value
  | 0, _, _, _, _ => throw .outOfFuel
  | fuel + 1, held, site, callee, values =>
    match callee with
    | .builtin b => callBuiltin site b values
    | .function id name => do
      let m ← get
      match m.closure? id with
      | none => fail (.notCallable .function) site
      | some c =>
        if c.params.length ≠ values.length then
          fail (.arity name c.params.length values.length) site
        else if settings.limits.calls ≤ m.calls then
          fail (.callDepthExceeded settings.limits.calls) site
        else
          let flow ← inScope settings (callee :: held) c.scope Flow.values fun scope => do
            modify (bindParams scope c.params values)
            inCall (sequence (exec settings fuel (callee :: held) scope) c.body)
          result site flow
    | other => fail (.notCallable other.type) site

/-- Runs a statement in a scope, while `held` values are still needed. -/
def exec (settings : Settings) : Nat → List Value → ScopeId → Stmt α → Eval α Flow
  | 0, _, _, _ => throw .outOfFuel
  | fuel + 1, held, scope, s =>
    descend settings s.note <|
      match s with
      | .expr _ e => do
        let _ ← eval settings fuel held scope e
        return .normal
      | .declare _ x e => do
        let v ← optional (eval settings fuel held scope) e
        modify fun m => m.declare scope x v
        return .normal
      | .print _ args => do
        let parts ← texts (eval settings fuel held scope) args
        modify fun m => m.printSegment (" ".intercalate parts)
        return .normal
      | .block _ body =>
        inScope settings held scope Flow.values fun inner =>
          sequence (exec settings fuel held inner) body
      | .cond _ condition consequent alternative => do
        let c ← eval settings fuel held scope condition
        if c.isTruthy then
          inScope settings held scope Flow.values fun inner =>
            sequence (exec settings fuel held inner) consequent
        else
          match alternative with
          | none => return .normal
          | some branch => exec settings fuel held scope branch
      | .loop _ condition body => turns settings fuel held scope condition body
      | .function _ f params body => do
        defineFunction scope f params body
        return .normal
      | .ret _ e => do
        let v ← optional (eval settings fuel held scope) e
        return .returning v
      | .breakLoop _ => return .breaking
      | .continueLoop _ => return .continuing

/-- The turns of a loop. -/
def turns (settings : Settings) :
    Nat → List Value → ScopeId → Expr α → List (Stmt α) → Eval α Flow
  | 0, _, _, _, _ => throw .outOfFuel
  | fuel + 1, held, scope, condition, body => do
    let c ← eval settings fuel held scope condition
    if c.isTruthy then
      let flow ← inScope settings held scope Flow.values fun inner =>
        sequence (exec settings fuel held inner) body
      match flow with
      | .breaking => return .normal
      | .returning v => return .returning v
      | .normal | .continuing => turns settings fuel held scope condition body
    else return .normal

end

/-! ## Programs -/

/-- Runs top-level statements and gives the value of the last one that is an expression, or `last`
    without one.  The value of the latest expression is held. -/
def topLevel (settings : Settings) (fuel : Nat) : Value → List (Stmt α) → Eval α Value
  | last, [] => pure last
  | last, .expr _ e :: rest => do
    let v ← eval settings fuel [last] Arena.global e
    topLevel settings fuel v rest
  | last, s :: rest =>
    followed (exec settings fuel [last] Arena.global s) (topLevel settings fuel last rest)
      fun flow => fail flow.misplaced s.note

end Eval

/-- How running a program ends. -/
inductive Outcome (α : Type) where
  | value (v : Value)
  | fault (error : RuntimeError α)
  | outOfFuel

/-- Runs a program on a machine; the machine can run further programs afterwards, also after a
    fault. -/
def Machine.run {α : Type} (settings : Settings) (fuel : Nat) (p : Program α) (m : Machine α) :
    Outcome α × Machine α :=
  match Eval.topLevel settings fuel .nil p.statements m with
  | .ok v m => (.value v, m)
  | .error (.fault e) m => (.fault e, m)
  | .error .outOfFuel m => (.outOfFuel, m)

/-- Runs programs one after another on a machine, each with a bound on its steps, also after
    faults: how each of them ends, and the machine then. -/
def Machine.runs {α : Type} (settings : Settings) :
    List (Nat × Program α) → Machine α → List (Outcome α × Machine α)
  | [], _ => []
  | (fuel, p) :: rest, m => m.run settings fuel p :: (m.run settings fuel p).2.runs settings rest

/-- How programs end that are run one after another, and the machine at the end. -/
def Machine.runAll {α : Type} (settings : Settings) (steps : List (Nat × Program α))
    (m : Machine α) : List (Outcome α) × Machine α :=
  ((m.runs settings steps).map Prod.fst, ((m.runs settings steps).map Prod.snd).getLastD m)

theorem Machine.runAll_cons {α : Type} (settings : Settings) (fuel : Nat) (p : Program α)
    (rest : List (Nat × Program α)) (m : Machine α) :
    m.runAll settings ((fuel, p) :: rest) =
      ((m.run settings fuel p).1 :: ((m.run settings fuel p).2.runAll settings rest).1,
        ((m.run settings fuel p).2.runAll settings rest).2) := by
  rw [runAll, runs, List.map_cons, List.map_cons, List.getLastD_cons]
  rfl

end Scriptlet
