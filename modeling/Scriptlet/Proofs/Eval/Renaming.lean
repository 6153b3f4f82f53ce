/-
  Renaming: values whose closures have other numbers.

  A function value is renamed by the new number of its closure; all else about a value stays.  No
  operator looks at the number but for the equality of two functions, so on renamed values every
  operator gives what it gave before, as long as different closures keep different numbers.  And
  when an operator or a built-in function gives nothing, it blames its operands.
-/
import Scriptlet.Eval.Operators
import Scriptlet.Scope.Bindings

namespace Scriptlet

/-! ## Renaming -/

/-- The value with its closure renumbered. -/
def Value.rename (f : Nat → Nat) : Value → Value
  | .function id name => .function (f id) name
  | v => v

namespace Value

variable {f g : Nat → Nat}

/-- A function stays a function, and nothing else becomes one. -/
@[simp] theorem type_rename (v : Value) : (v.rename f).type = v.type := by
  cases v <;> rfl

/-- A function is written by its name, not by its number. -/
@[simp] theorem text_rename (v : Value) : (v.rename f).text = v.text := by
  cases v <;> rfl

@[simp] theorem isTruthy_rename (v : Value) : (v.rename f).isTruthy = v.isTruthy := by
  cases v <;> rfl

/-- Only the number of the value itself matters. -/
theorem rename_congr {v : Value} (h : ∀ id, v.closure? = some id → f id = g id) :
    v.rename f = v.rename g := by
  cases v with
  | function id name => exact congrArg (Value.function · name) (h id rfl)
  | _ => rfl

/-- Renaming does nothing to a value that is no function. -/
theorem rename_of_closure? {v : Value} (h : v.closure? = none) : v.rename f = v := by
  cases v with
  | function id name => exact absurd h (by simp [closure?])
  | _ => rfl

/-- Only a function value names a closure. -/
theorem eq_function {v : Value} {id : Nat} (h : v.closure? = some id) :
    ∃ name, v = function id name := by
  cases v with
  | function id' name =>
    obtain rfl : id' = id := Option.some.inj h
    exact ⟨name, rfl⟩
  | _ => exact absurd h (by simp [closure?])

end Value

/-- Bindings with all values renamed. -/
def Bindings.rename (f : Nat → Nat) (b : Bindings) : Bindings :=
  b.map fun entry => (entry.1, entry.2.rename f)

namespace Bindings

variable {f g : Nat → Nat}

/-- A name is looked up among renamed values as among the values themselves. -/
theorem get?_rename (b : Bindings) (x : String) :
    (b.rename f).get? x = (b.get? x).map (Value.rename f) := by
  induction b with
  | nil => rfl
  | cons entry rest ih =>
    obtain ⟨y, v⟩ := entry
    show get? ((y, v.rename f) :: rename f rest) x = _
    rw [get?, get?]
    split
    · rfl
    · exact ih

/-- Binding a renamed value is renaming after binding. -/
theorem put_rename (b : Bindings) (x : String) (v : Value) :
    (b.rename f).put x (v.rename f) = (b.put x v).rename f := by
  induction b with
  | nil => rfl
  | cons entry rest ih =>
    obtain ⟨y, u⟩ := entry
    show put ((y, u.rename f) :: rename f rest) x (v.rename f) = _
    rw [put, put]
    split
    · rfl
    · rw [ih]
      rfl

/-- Only the numbers of the values bound matter. -/
theorem rename_congr {b : Bindings}
    (h : ∀ v ∈ b.values, ∀ id, v.closure? = some id → f id = g id) : b.rename f = b.rename g := by
  refine List.map_congr_left fun entry hentry => ?_
  rw [Value.rename_congr (h entry.2 (List.mem_map_of_mem hentry))]

/-- What a name is bound to is one of the values. -/
theorem get?_mem_values {b : Bindings} {x : String} {v : Value} (h : b.get? x = some v) :
    v ∈ b.values := by
  induction b with
  | nil => exact absurd h (by simp [get?])
  | cons entry rest ih =>
    obtain ⟨y, u⟩ := entry
    rw [get?] at h
    split at h
    · rw [← Option.some.inj h]
      exact List.mem_cons_self ..
    · exact List.mem_cons_of_mem _ (ih h)

end Bindings

/-! ## Operators -/

variable {f : Nat → Nat} {l r v : Value}

/-- No sign looks at a closure. -/
theorem UnaryOp.apply_rename (op : UnaryOp) (v : Value) : op.apply (v.rename f) = op.apply v := by
  cases op <;> cases v <;> rfl

/-- Values are compared by type and contents; functions have no order. -/
theorem Value.order?_rename (l r : Value) : (l.rename f).order? (r.rename f) = l.order? r := by
  cases l <;> cases r <;> rfl

/-- Arithmetic looks at numbers and strings, which have no closures. -/
theorem ArithmeticOp.apply_rename (op : ArithmeticOp) (l r : Value) :
    op.apply (l.rename f) (r.rename f) = op.apply l r := by
  cases op <;> cases l <;> cases r <;> rfl

/-- Functions are equal when their closures are, so different closures must keep different
    numbers. -/
theorem Value.equals_rename (l r : Value)
    (h : ∀ i j, l.closure? = some i → r.closure? = some j → f i = f j → i = j) :
    (l.rename f).equals (r.rename f) = l.equals r := by
  match l, r with
  | .function i _, .function j _ =>
    have hij : (f i = f j) ↔ i = j := ⟨h i j rfl rfl, congrArg f⟩
    show (f i == f j) = (i == j)
    rw [Bool.eq_iff_iff, beq_iff_eq, beq_iff_eq, hij]
  | .nil, r | .bool _, r | .integer _, r | .float _, r | .str _, r | .builtin _, r =>
    cases r <;> rfl
  | .function _ _, .nil | .function _ _, .bool _ | .function _ _, .integer _
  | .function _ _, .float _ | .function _ _, .str _ | .function _ _, .builtin _ => rfl

/-- A sign never gives a function. -/
theorem UnaryOp.apply_plain {op : UnaryOp} (h : op.apply l = .ok v) : v.closure? = none := by
  unfold UnaryOp.apply at h
  split at h
  · cases h
    rfl
  · split at h
    · cases h
      rfl
    · cases h
  · cases h
    rfl
  · cases h

/-- Arithmetic never gives a function. -/
theorem ArithmeticOp.apply_plain {op : ArithmeticOp} (h : op.apply l r = .ok v) :
    v.closure? = none := by
  have hint : ∀ a b, op.onIntegers a b = .ok v → v.closure? = none := by
    intro a b h
    unfold onIntegers at h
    split at h
    · cases h
    · split at h
      · cases h
      · split at h
        · cases h
          rfl
        · cases h
  have hfloat : ∀ a b, op.onFloats a b = .ok v → v.closure? = none := by
    intro a b h
    unfold onFloats at h
    split at h
    · cases h
    · cases h
      rfl
  unfold ArithmeticOp.apply at h
  split at h
  · cases h
    rfl
  · exact hint _ _ h
  · exact hfloat _ _ h
  · exact hfloat _ _ h
  · exact hfloat _ _ h
  · cases h

/-- **A binary operator does not see the numbers of closures.** -/
theorem BinaryOp.apply_rename (op : BinaryOp) (l r : Value)
    (h : ∀ i j, l.closure? = some i → r.closure? = some j → f i = f j → i = j) :
    op.apply (l.rename f) (r.rename f) = op.apply l r := by
  match op with
  | .equality op =>
    have heq := Value.equals_rename l r h
    cases op with
    | equal => exact congrArg (Except.ok ∘ Value.bool) heq
    | notEqual => exact congrArg (Except.ok ∘ Value.bool ∘ Bool.not) heq
  | .comparison op =>
    show op.apply _ _ = op.apply l r
    rw [ComparisonOp.apply, ComparisonOp.apply, Value.order?_rename, Value.type_rename,
      Value.type_rename]
  | .arithmetic op => exact op.apply_rename l r

/-- No operator makes a function. -/
theorem BinaryOp.apply_plain {op : BinaryOp} (h : op.apply l r = .ok v) : v.closure? = none := by
  match op with
  | .equality op =>
    cases op <;> cases h <;> rfl
  | .comparison op =>
    have h : op.apply l r = .ok v := h
    unfold ComparisonOp.apply at h
    split at h
    · cases h
      rfl
    · cases h
  | .arithmetic op => exact ArithmeticOp.apply_plain h

/-- No built-in function looks at a closure. -/
theorem Builtin.apply_rename (b : Builtin) (v : Value) : b.apply (v.rename f) = b.apply v := by
  cases b <;> cases v <;> rfl

/-- Built-in functions never give a function. -/
theorem Builtin.apply_plain {b : Builtin} (h : b.apply l = .ok v) : v.closure? = none := by
  unfold Builtin.apply at h
  split at h
  · cases h
    rfl
  · cases h
  · cases h
    rfl
  · cases h
    rfl

/-- No literal is a function. -/
theorem Literal.closure?_value (v : Literal) : v.value.closure? = none := by
  cases v <;> rfl

/-! ## Faults of operators -/

/-- The fault lies in the operands or arguments. -/
def RuntimeFault.blamesOperands : RuntimeFault → Bool
  | .typeMismatch _ _ _ | .divisionByZero | .integerOverflow => true
  | _ => false

section Faults

variable {cause : RuntimeFault}

/-- A sign fails for the type of its operand, or for its range. -/
theorem UnaryOp.blames_operands {op : UnaryOp} (h : op.apply v = .error cause) :
    cause.blamesOperands = true := by
  unfold UnaryOp.apply at h
  split at h
  · exact absurd h (by simp)
  · split at h
    · exact absurd h (by simp)
    · rw [← Except.error.inj h]
      rfl
  · exact absurd h (by simp)
  · rw [← Except.error.inj h]
    rfl

/-- Arithmetic fails for types, for a divisor that is zero, or for the range. -/
theorem ArithmeticOp.blames_operands {op : ArithmeticOp} (h : op.apply l r = .error cause) :
    cause.blamesOperands = true := by
  have hintegers : ∀ a b, op.onIntegers a b = .error cause → cause.blamesOperands = true := by
    intro a b h
    unfold ArithmeticOp.onIntegers at h
    split at h
    · rw [← Except.error.inj h]
      rfl
    · split at h
      · rw [← Except.error.inj h]
        rfl
      · split at h
        · exact absurd h (by simp)
        · rw [← Except.error.inj h]
          rfl
  have hfloats : ∀ x y, op.onFloats x y = .error cause → cause.blamesOperands = true := by
    intro x y h
    unfold ArithmeticOp.onFloats at h
    split at h
    · rw [← Except.error.inj h]
      rfl
    · exact absurd h (by simp)
  unfold ArithmeticOp.apply at h
  split at h
  · exact absurd h (by simp)
  · exact hintegers _ _ h
  · exact hfloats _ _ h
  · exact hfloats _ _ h
  · exact hfloats _ _ h
  · rw [← Except.error.inj h]
    rfl

/-- Comparisons fail for types, equality never. -/
theorem BinaryOp.blames_operands {op : BinaryOp} (h : op.apply l r = .error cause) :
    cause.blamesOperands = true := by
  cases op with
  | equality op => exact absurd h (by simp [BinaryOp.apply])
  | comparison op =>
    simp only [BinaryOp.apply, ComparisonOp.apply] at h
    split at h
    · exact absurd h (by simp)
    · rw [← Except.error.inj h]
      rfl
  | arithmetic op => exact ArithmeticOp.blames_operands h

/-- A built-in function fails for the type of its argument. -/
theorem Builtin.blames_operands {b : Builtin} (h : b.apply v = .error cause) :
    cause.blamesOperands = true := by
  unfold Builtin.apply at h
  split at h
  · exact absurd h (by simp)
  · rw [← Except.error.inj h]
    rfl
  · exact absurd h (by simp)
  · exact absurd h (by simp)

end Faults

end Scriptlet
