/-
  Integer arithmetic: exact, or a fault that says why not.

  1. **Exact results** (`ArithmeticOp.exactResult`) — said with rational numbers: a quotient is cut
     off towards zero (`truncate`), and a remainder is what the cut-off quotient leaves of the
     dividend.  There is no result for a divisor of zero.
  2. **Program** (`ArithmeticOp.onIntegers`) — divides whole numbers, and asks of a remainder that
     the quotient it comes with is in range as well.
  3. **The crux** — whole numbers are divided like rational ones (`truncate_div`), and of all
     quotients of 64-bit integers only that of the least one by minus one leaves the range
     (`inRange_tdiv_iff`).  So a remainder, which never leaves it, is refused for this one pair.
-/
import Mathlib.Data.Rat.Floor
import Scriptlet.Eval.Operators
import Scriptlet.Proofs.Number.ReadBack

namespace Scriptlet

/-! ## The range -/

namespace Integer

/-- The number fits in 64 bits with sign. -/
def InRange (n : Int) : Prop := least ≤ n ∧ n ≤ greatest

/-- Every 64-bit integer is in range. -/
theorem inRange_toInt (i : Int64) : InRange i.toInt :=
  ⟨i.le_toInt, Int.le_of_lt_add_one i.toInt_lt⟩

theorem toInt_eq_zero_iff (i : Int64) : i.toInt = 0 ↔ i = 0 := by
  rw [← Int64.toInt_inj]
  rfl

/-- A number fits if it is in range. -/
theorem exists_fit?_iff {n : Int} : (∃ i, fit? n = some i) ↔ InRange n := by
  constructor
  · rintro ⟨i, hi⟩
    rw [← fit?_eq_some_iff.mp hi]
    exact inRange_toInt i
  · intro h
    exact ⟨Int64.ofInt n, if_pos h⟩

theorem fit?_eq_none {n : Int} : fit? n = none ↔ ¬ InRange n := by
  rw [← exists_fit?_iff]
  cases fit? n <;> simp

end Integer

open Integer (InRange least greatest)

/-! ## Exact results -/

/-- A rational number cut off towards zero. -/
def truncate (q : Rat) : Int := if 0 ≤ q then ⌊q⌋ else ⌈q⌉

/-- The exact result of an operator on integers; none for a divisor of zero. -/
def ArithmeticOp.exactResult (op : ArithmeticOp) (a b : Int) : Option Int :=
  match op with
  | .add => some (a + b)
  | .subtract => some (a - b)
  | .multiply => some (a * b)
  | .divide => if b = 0 then none else some (truncate (a / b))
  | .remainder => if b = 0 then none else some (a - truncate (a / b) * b)

/-- What is left of a dividend lies between zero and the divisor, on the side of the dividend. -/
theorem tmod_bounds (a : Int) {b : Int} (hb : 0 < b) :
    (0 ≤ a → 0 ≤ a.tmod b ∧ a.tmod b < b) ∧ (a ≤ 0 → -b < a.tmod b ∧ a.tmod b ≤ 0) := by
  constructor
  · intro ha
    exact ⟨Int.tmod_nonneg b ha, Int.tmod_lt_of_pos a hb⟩
  · intro ha
    have hnonneg := Int.tmod_nonneg b (show 0 ≤ -a by omega)
    have hlt := Int.tmod_lt_of_pos (-a) hb
    rw [Int.neg_tmod] at hnonneg hlt
    omega

/-- For a positive divisor, truncating the exact quotient is division towards zero. -/
theorem truncate_div_of_pos (a : Int) {b : Int} (hb : 0 < b) : truncate (a / b) = a.tdiv b := by
  have hdivision : b * a.tdiv b + a.tmod b = a := Int.mul_tdiv_add_tmod a b
  have hpos : (0 : Rat) < b := by exact_mod_cast hb
  obtain ⟨hfront, hback⟩ := tmod_bounds a hb
  unfold truncate
  by_cases ha : 0 ≤ a
  · obtain ⟨hnonneg, hlt⟩ := hfront ha
    have hsign : (0 : Rat) ≤ a / b := div_nonneg (by exact_mod_cast ha) (le_of_lt hpos)
    rw [if_pos hsign, Int.floor_eq_iff, le_div_iff₀ hpos, div_lt_iff₀ hpos]
    constructor
    · have hle : a.tdiv b * b ≤ a := by rw [Int.mul_comm]; omega
      exact_mod_cast hle
    · have hnext : a < (a.tdiv b + 1) * b := by rw [Int.add_mul, Int.mul_comm]; omega
      exact_mod_cast hnext
  · obtain ⟨hlt, hnonpos⟩ := hback (by omega)
    have hsign : ¬ (0 : Rat) ≤ a / b := by
      rw [not_le, div_lt_iff₀ hpos, zero_mul]
      exact_mod_cast Int.not_le.mp ha
    rw [if_neg hsign, Int.ceil_eq_iff, lt_div_iff₀ hpos, div_le_iff₀ hpos]
    constructor
    · have hprevious : (a.tdiv b - 1) * b < a := by rw [Int.sub_mul, Int.mul_comm]; omega
      exact_mod_cast hprevious
    · have hle : a ≤ a.tdiv b * b := by rw [Int.mul_comm]; omega
      exact_mod_cast hle

/-- **Whole numbers are divided like rational ones**, and cut off. -/
theorem truncate_div (a : Int) {b : Int} (hb : b ≠ 0) : truncate (a / b) = a.tdiv b := by
  rcases Int.lt_or_gt_of_ne hb with hneg | hpos
  · -- both signs change, which changes no quotient
    have hflip : (a : Rat) / b = (-a : Int) / (-b : Int) := by
      rw [Int.cast_neg, Int.cast_neg, neg_div_neg_eq]
    rw [hflip, truncate_div_of_pos (-a) (show 0 < -b by omega), Int.tdiv_neg, Int.neg_tdiv,
      Int.neg_neg]
  · exact truncate_div_of_pos a hpos

/-- The exact result is what the program computes with, unless it divides by zero. -/
theorem ArithmeticOp.exactResult_eq (op : ArithmeticOp) {a b : Int}
    (h : (op.divides && b == 0) = false) : op.exactResult a b = some (op.onInt a b) := by
  have hdivision : b * a.tdiv b + a.tmod b = a := Int.mul_tdiv_add_tmod a b
  cases op with
  | add | subtract | multiply => rfl
  | divide =>
    have hb : b ≠ 0 := by simpa [divides] using h
    rw [exactResult, if_neg hb, truncate_div a hb]
    rfl
  | remainder =>
    have hb : b ≠ 0 := by simpa [divides] using h
    have hleft : a - a.tdiv b * b = a.tmod b := by rw [Int.mul_comm]; omega
    rw [exactResult, if_neg hb, truncate_div a hb, hleft]
    rfl

/-- Only a division by zero has no result. -/
theorem ArithmeticOp.exactResult_eq_none_iff (op : ArithmeticOp) (a b : Int) :
    op.exactResult a b = none ↔ (op = .divide ∨ op = .remainder) ∧ b = 0 := by
  cases op <;> simp [exactResult]

/-! ## What stays in range -/

/-- The remainder is smaller than the divisor, and no larger than the dividend. -/
theorem natAbs_tmod_bounds (a : Int) {b : Int} (hb : b ≠ 0) :
    (a.tmod b).natAbs < b.natAbs ∧ (a.tmod b).natAbs ≤ a.natAbs := by
  rw [Int.natAbs_tmod]
  exact ⟨Nat.mod_lt _ (Int.natAbs_pos.mpr hb), Nat.mod_le _ _⟩

/-- **A remainder is always in range**: it is no larger than the dividend. -/
theorem ArithmeticOp.inRange_remainder {a b r : Int} (ha : InRange a) (hb : InRange b)
    (hr : ArithmeticOp.remainder.exactResult a b = some r) : InRange r := by
  have hne : b ≠ 0 := by
    rintro rfl
    exact nomatch hr
  have hmod : a.tmod b = r :=
    Option.some.inj ((exactResult_eq .remainder (by simpa [divides] using hne)).symm.trans hr)
  obtain ⟨hlt, hle⟩ := natAbs_tmod_bounds a hne
  rw [hmod] at hlt hle
  unfold InRange least greatest at *
  omega

/-- **One quotient of two integers leaves the range**: that of the least one by minus one. -/
theorem inRange_tdiv_iff {a b : Int} (ha : InRange a) (hne : b ≠ 0) :
    InRange (a.tdiv b) ↔ ¬ (a = least ∧ b = -1) := by
  by_cases hb : b = -1
  · subst hb
    rw [Int.tdiv_neg, Int.tdiv_one]
    unfold InRange least greatest at *
    omega
  · refine iff_of_true ?_ fun h => hb h.2
    have habs : (a.tdiv b).natAbs = a.natAbs / b.natAbs := Int.natAbs_tdiv a b
    rcases Nat.lt_or_ge 1 b.natAbs with hlarge | hsmall
    · -- the quotient is at most half as large as the dividend
      have hhalf : a.natAbs / b.natAbs ≤ a.natAbs / 2 := Nat.div_le_div_left hlarge (by decide)
      unfold InRange least greatest at *
      omega
    · have hone : b = 1 := by omega
      rw [hone, Int.tdiv_one]
      exact ha

/-! ## The operators -/

/-- A result on integers is the exact one if that exists and is in range.  Otherwise it is a fault:
    a division by zero if there is no exact result, an overflow if it is out of range; and an
    overflow too where the pair of operands is `refused` although the exact result is in range. -/
structure Delivers (exact : Option Int) (refused : Prop) (result : Except RuntimeFault Value) :
    Prop where
  value : ∀ v, result = .ok v → ∃ n : Int64, v = .integer n ∧ exact = some n.toInt
  succeeds_iff : (∃ v, result = .ok v) ↔ ∃ r, exact = some r ∧ InRange r ∧ ¬ refused
  divisionByZero_iff : result = .error .divisionByZero ↔ exact = none
  overflow_iff : result = .error .integerOverflow ↔
    ∃ r, exact = some r ∧ (¬ InRange r ∨ refused)

theorem delivers_divisionByZero {refused : Prop} :
    Delivers none refused (.error .divisionByZero) := by
  constructor <;> simp

theorem delivers_overflow {r : Int} {refused : Prop} (h : ¬ InRange r ∨ refused) :
    Delivers (some r) refused (.error .integerOverflow) := by
  constructor
  case value => exact fun v hv => nomatch hv
  case succeeds_iff =>
    refine iff_of_false (fun ⟨v, hv⟩ => nomatch hv) ?_
    rintro ⟨r', hr, hrange, hnot⟩
    obtain rfl := Option.some.inj hr
    exact h.elim (· hrange) hnot
  case divisionByZero_iff => simp
  case overflow_iff => exact iff_of_true rfl ⟨r, rfl, h⟩

theorem delivers_value {n : Int64} {refused : Prop} (h : ¬ refused) :
    Delivers (some n.toInt) refused (.ok (.integer n)) := by
  constructor
  case value =>
    intro v hv
    exact ⟨n, (Except.ok.inj hv).symm, rfl⟩
  case succeeds_iff =>
    exact iff_of_true ⟨_, rfl⟩ ⟨_, rfl, Integer.inRange_toInt n, h⟩
  case divisionByZero_iff => simp
  case overflow_iff =>
    refine iff_of_false (fun hv => nomatch hv) ?_
    rintro ⟨r, hr, hbad⟩
    rw [← Option.some.inj hr] at hbad
    exact hbad.elim (· (Integer.inRange_toInt n)) h

/-- Bringing an exact result back into 64 bits delivers it. -/
theorem delivers_fit (r : Int) {refused : Prop} (h : ¬ refused) :
    Delivers (some r) refused (match Integer.fit? r with
      | some n => .ok (.integer n)
      | none => .error .integerOverflow) := by
  cases hfit : Integer.fit? r with
  | some n =>
    rw [← Integer.fit?_eq_some_iff.mp hfit]
    exact delivers_value h
  | none => exact delivers_overflow (.inl (Integer.fit?_eq_none.mp hfit))

/-- The one pair that a remainder is refused for. -/
def ArithmeticOp.Refuses (op : ArithmeticOp) (a b : Int) : Prop :=
  op = .remainder ∧ a = least ∧ b = -1

/-- The quotient does not fit exactly where the operator refuses. -/
theorem ArithmeticOp.quotientFits_iff (op : ArithmeticOp) {a b : Int} (ha : InRange a)
    (h : (op.divides && b == 0) = false) : op.quotientFits a b = true ↔ ¬ op.Refuses a b := by
  cases op with
  | add | subtract | multiply | divide => simp [quotientFits, Refuses]
  | remainder =>
    have hb : b ≠ 0 := by simpa [divides] using h
    rw [quotientFits, Option.isSome_iff_exists, Integer.exists_fit?_iff, inRange_tdiv_iff ha hb]
    simp [Refuses]

/-- **What an operator delivers on two integers.** -/
theorem ArithmeticOp.delivers_onIntegers (op : ArithmeticOp) (a b : Int64) :
    Delivers (op.exactResult a.toInt b.toInt) (op.Refuses a.toInt b.toInt) (op.onIntegers a b) := by
  have hzero : (b == 0) = (b.toInt == 0) := by
    rw [Bool.eq_iff_iff, beq_iff_eq, beq_iff_eq]
    exact (Integer.toInt_eq_zero_iff b).symm
  unfold onIntegers
  rw [hzero]
  cases hdivides : op.divides && b.toInt == 0 with
  | true =>
    have hnone : op.exactResult a.toInt b.toInt = none := by
      rw [exactResult_eq_none_iff]
      cases op <;> simp_all [divides]
    rw [hnone, if_pos rfl]
    exact delivers_divisionByZero
  | false =>
    have hfits := op.quotientFits_iff (Integer.inRange_toInt a) hdivides
    rw [op.exactResult_eq hdivides, if_neg Bool.false_ne_true]
    cases hquotient : op.quotientFits a.toInt b.toInt with
    | false =>
      rw [hquotient] at hfits
      exact delivers_overflow (.inr (Classical.not_not.mp fun h => nomatch hfits.mpr h))
    | true => exact delivers_fit _ (hfits.mp hquotient)

/-- **Integer arithmetic is exact, or says why not.**  Every operator on two integers, and the minus
    sign on one, gives the exact result if it is defined and in range.  The faults are a division by
    zero, exactly if there is no exact result; and an overflow, exactly if it is out of range, or if
    the operands are those of the one refused remainder.  No exact remainder is out of range, and a
    quotient and a remainder that are both given belong together. -/
theorem integer_operators_exact (a b : Int64) :
    (∀ op : ArithmeticOp, Delivers (op.exactResult a.toInt b.toInt) (op.Refuses a.toInt b.toInt)
      ((BinaryOp.arithmetic op).apply (.integer a) (.integer b))) ∧
    (∀ op : ArithmeticOp, op.exactResult a.toInt b.toInt = none ↔
      (op = .divide ∨ op = .remainder) ∧ b = 0) ∧
    (∀ r, ArithmeticOp.remainder.exactResult a.toInt b.toInt = some r → InRange r) ∧
    Delivers (some (-a.toInt)) False (UnaryOp.negate.apply (.integer a)) ∧
    (∀ q r : Int64,
      (BinaryOp.arithmetic .divide).apply (.integer a) (.integer b) = .ok (.integer q) →
      (BinaryOp.arithmetic .remainder).apply (.integer a) (.integer b) = .ok (.integer r) →
      q.toInt * b.toInt + r.toInt = a.toInt ∧ |r.toInt| < |b.toInt|) := by
  have hdelivers : ∀ op : ArithmeticOp,
      Delivers (op.exactResult a.toInt b.toInt) (op.Refuses a.toInt b.toInt)
        ((BinaryOp.arithmetic op).apply (.integer a) (.integer b)) := by
    intro op
    have happly : (BinaryOp.arithmetic op).apply (.integer a) (.integer b) = op.onIntegers a b := by
      cases op <;> rfl
    rw [happly]
    exact op.delivers_onIntegers a b
  have hnone : ∀ op : ArithmeticOp, op.exactResult a.toInt b.toInt = none ↔
      (op = .divide ∨ op = .remainder) ∧ b = 0 := by
    intro op
    rw [op.exactResult_eq_none_iff, Integer.toInt_eq_zero_iff]
  have hremainders : ∀ r, ArithmeticOp.remainder.exactResult a.toInt b.toInt = some r →
      InRange r := fun r =>
    ArithmeticOp.inRange_remainder (Integer.inRange_toInt a) (Integer.inRange_toInt b)
  refine ⟨hdelivers, hnone, hremainders, delivers_fit (-a.toInt) not_false, fun q r hq hr => ?_⟩
  obtain ⟨n, hn, hquotient⟩ := (hdelivers .divide).value _ hq
  obtain ⟨m, hm, hremainder⟩ := (hdelivers .remainder).value _ hr
  obtain rfl := Value.integer.inj hn
  obtain rfl := Value.integer.inj hm
  have hb : b.toInt ≠ 0 := by
    intro hzero
    rw [(ArithmeticOp.exactResult_eq_none_iff ..).mpr ⟨.inl rfl, hzero⟩] at hquotient
    exact nomatch hquotient
  have hquotient : truncate (a.toInt / b.toInt) = q.toInt :=
    Option.some.inj ((if_neg hb).symm.trans hquotient)
  have hremainder : a.toInt - truncate (a.toInt / b.toInt) * b.toInt = r.toInt :=
    Option.some.inj ((if_neg hb).symm.trans hremainder)
  rw [hquotient] at hremainder
  constructor
  · omega
  · rw [truncate_div _ hb] at hquotient
    have hmod : a.toInt.tmod b.toInt = r.toInt := by
      have := Int.mul_tdiv_add_tmod a.toInt b.toInt
      rw [hquotient, Int.mul_comm] at this
      omega
    have hlt := (natAbs_tmod_bounds a.toInt hb).1
    rw [hmod] at hlt
    rw [Int.abs_eq_natAbs, Int.abs_eq_natAbs]
    exact_mod_cast hlt

/-- The quotient of -7 by 2 is cut off to -3, and leaves -1. -/
theorem integer_operators_exact_minusSeven :
    (BinaryOp.arithmetic .divide).apply (.integer (-7)) (.integer 2) = .ok (.integer (-3)) ∧
      (BinaryOp.arithmetic .remainder).apply (.integer (-7)) (.integer 2) = .ok (.integer (-1)) ∧
      (-3 : Int64).toInt * (2 : Int64).toInt + (-1 : Int64).toInt = (-7 : Int64).toInt ∧
      |(-1 : Int64).toInt| < |(2 : Int64).toInt| := by
  have hquotient : (BinaryOp.arithmetic .divide).apply (.integer (-7)) (.integer 2)
      = .ok (.integer (-3)) := by decide
  have hremainder : (BinaryOp.arithmetic .remainder).apply (.integer (-7)) (.integer 2)
      = .ok (.integer (-1)) := by decide
  exact ⟨hquotient, hremainder,
    (integer_operators_exact (-7) 2).2.2.2.2 (-3) (-1) hquotient hremainder⟩

/-- The remainder of the least integer by minus one is zero, which is in range, and is reported as
    an overflow. -/
theorem remainder_least_by_minus_one :
    ArithmeticOp.remainder.exactResult (Int64.minValue).toInt (-1 : Int64).toInt = some 0 ∧
      InRange 0 ∧
      (BinaryOp.arithmetic .remainder).apply (.integer .minValue) (.integer (-1))
        = .error .integerOverflow := by
  refine ⟨?_, ⟨by decide, by decide⟩, by decide⟩
  rw [ArithmeticOp.exactResult_eq _ (by decide)]
  decide

end Scriptlet
