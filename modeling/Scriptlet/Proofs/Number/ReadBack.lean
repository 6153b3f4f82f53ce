/-
  Number literals read back.

  1. **Digits** — the digits of a natural number denote it; zeros behind them shift, zeros in front
     of them do nothing.
  2. **Shifting** (`read_shift`) — a factor of ten moves between the digits and the exponent.
  3. **The crux (`read_shortest`)** — whatever grid the shortest decimal was found on, it reads back
     to its magnitude; where none was found, the exact decimal does.
  4. **Texts** — the text of a finite float without a sign is digits, a point and digits, and that
     of an integer without a sign is digits; each literal denotes the number it was written for.
-/
import Scriptlet.Number.Decimal
import Scriptlet.Number.Integer
import Scriptlet.Proofs.Number.Rounding

namespace Scriptlet

namespace Decimal

open Binary64

/-! ## Digits -/

theorem natOfDigits_eq (digits : List Char) :
    natOfDigits digits = Nat.ofDigitChars 10 digits 0 := rfl

/-- The digits of a number are read back as that number. -/
theorem natOfDigits_digitsOfNat (n : Nat) : natOfDigits (digitsOfNat n) = n := by
  rw [natOfDigits_eq, digitsOfNat]
  exact Nat.ofDigitChars_ten_toDigits

/-- Zeros behind the digits multiply by a power of ten. -/
theorem natOfDigits_append_zeros (digits : List Char) (n : Nat) :
    natOfDigits (digits ++ List.replicate n '0') = pow10 n * natOfDigits digits := by
  rw [natOfDigits_eq, Nat.ofDigitChars_append, Nat.ofDigitChars_replicate_zero]
  rfl

/-- Zeros in front of the digits do not count. -/
theorem natOfDigits_zeros_append (digits : List Char) (n : Nat) :
    natOfDigits (List.replicate n '0' ++ digits) = natOfDigits digits := by
  rw [natOfDigits_eq, Nat.ofDigitChars_append, Nat.ofDigitChars_replicate_zero, Nat.mul_zero]
  rfl

/-- Only decimal digits are written. -/
theorem isDigit_of_mem_digitsOfNat {n : Nat} {c : Char} (h : c ∈ digitsOfNat n) :
    c.isDigit = true :=
  Nat.isDigit_of_mem_toDigits (by decide) (by decide) h

/-- Even zero is written with a digit. -/
theorem digitsOfNat_ne_nil (n : Nat) : digitsOfNat n ≠ [] := Nat.toDigits_ne_nil

theorem pow10_pos (n : Nat) : 0 < pow10 n := Nat.pow_pos (by decide)

theorem pow10_succ (n : Nat) : pow10 (n + 1) = pow10 n * 10 := Nat.pow_succ ..

/-! ## Shifting -/

/-- **A factor of ten moves into the exponent.** -/
theorem read_shift (d : Nat) (e : Int) : read (10 * d) e = read d (e + 1) := by
  unfold read
  by_cases he : 0 ≤ e
  · have hnat : (e + 1).toNat = e.toNat + 1 := by omega
    rw [if_pos he, if_pos (by omega), hnat, pow10_succ, Nat.mul_comm 10 d, Nat.mul_assoc,
      Nat.mul_comm 10]
  · rw [if_neg he]
    by_cases hone : e = -1
    · subst hone
      rw [if_pos (by decide)]
      show ofRatio (10 * d) (1 * 10) = ofRatio (d * 1) 1
      rw [Nat.mul_one, Nat.mul_comm 10 d]
      exact ofRatio_mul (by decide) (by decide)
    · have hnat : (-e).toNat = (-(e + 1)).toNat + 1 := by omega
      rw [if_neg (by omega), hnat, pow10_succ, Nat.mul_comm 10 d]
      exact ofRatio_mul (pow10_pos _) (by decide)

/-- Multiplied by a power of ten, the decimal has the larger exponent. -/
theorem read_shifts (n d : Nat) (e : Int) : read (pow10 n * d) e = read d (e + n) := by
  induction n generalizing e with
  | zero => rw [show pow10 0 * d = d from Nat.one_mul d, Int.natCast_zero, Int.add_zero]
  | succ n ih =>
    rw [pow10_succ, Nat.mul_comm (pow10 n), Nat.mul_assoc, read_shift, ih]
    congr 1
    omega

/-- Trimming zeros does not change what is read. -/
theorem read_trimZeros (fuel d : Nat) (e : Int) :
    read (trimZeros fuel d e).1 (trimZeros fuel d e).2 = read d e := by
  induction fuel generalizing d e with
  | zero => rfl
  | succ fuel ih =>
    unfold trimZeros
    split
    · rename_i hmod
      have hd : d = 10 * (d / 10) := by omega
      rw [ih, ← read_shift, ← hd]
    · rfl

/-! ## The shortest decimal -/

/-- A decimal of a grid is only taken if it is read back as the same bits. -/
theorem read_of_onGrid? {bits num den : Nat} {e : Int} {r : Nat × Int}
    (h : onGrid? bits num den e = some r) : read r.1 r.2 = bits := by
  unfold onGrid? at h
  split at h
  rename_i n d _
  simp only [] at h
  split at h
  · rename_i hhigh
    cases h
    have hhigh := ((Bool.and_eq_true _ _).mp hhigh).1
    exact eq_of_beq hhigh
  · split at h
    · rename_i hlow
      cases h
      exact eq_of_beq hlow
    · exact absurd h (by simp)

/-- The exact decimal of a magnitude: a power of two in the denominator becomes a power of ten. -/
theorem read_exact (m : Nat) (q : Int) :
    read ((ratio m q).1 * pow10 (-q).toNat / (ratio m q).2) (-((-q).toNat : Int))
      = ofRatio (ratio m q).1 (ratio m q).2 := by
  rw [ratio_eq]
  generalize hk : (-q).toNat = k
  have hten : pow10 k = Nat.pow 5 k * pow2 k := Nat.mul_pow 5 2 k
  have hdiv : m * pow2 q.toNat * pow10 k / pow2 k = m * pow2 q.toNat * Nat.pow 5 k := by
    rw [hten, ← Nat.mul_assoc, Nat.mul_div_cancel _ (pow2_pos k)]
  simp only [hdiv]
  rcases Nat.eq_zero_or_pos k with hzero | hpos
  · subst hzero
    rw [read, if_pos (by decide)]
    simp only [Int.natCast_zero, Int.neg_zero, Int.toNat_zero]
    rw [show Nat.pow 5 0 = 1 from rfl, show pow10 0 = 1 from rfl, show pow2 0 = 1 from rfl,
      Nat.mul_one, Nat.mul_one]
  · rw [read, if_neg (by omega), show (-(-(k : Int))).toNat = k by omega, hten,
      Nat.mul_comm (Nat.pow 5 k) (pow2 k)]
    exact ofRatio_mul (pow2_pos k) (Nat.pow_pos (by decide))

/-- **The shortest decimal reads back** to the magnitude it was made for. -/
theorem read_shortest {bits : Nat} (hpos : 0 < bits) (hfin : bits < infinityBits) :
    read (shortest bits).1 (shortest bits).2 = bits := by
  have hself := ofRatio_decode hpos hfin
  unfold shortest
  simp only []
  rw [read_trimZeros]
  generalize hgrid : List.findSome? _ (List.range 17) = found
  cases found with
  | some r =>
    obtain ⟨n, -, hn⟩ := List.exists_of_findSome?_eq_some hgrid
    exact read_of_onGrid? hn
  | none => exact (read_exact _ _).trans hself

/-! ## Texts of floats -/

/-- The text is digits, a point and digits, and as a literal denotes `x`. -/
def IsFloatLiteral (text : List Char) (x : Binary64) : Prop :=
  ∃ whole fraction, text = whole ++ '.' :: fraction ∧
    whole ≠ [] ∧ (∀ c ∈ whole, c.isDigit = true) ∧
    fraction ≠ [] ∧ (∀ c ∈ fraction, c.isDigit = true) ∧ ofFraction whole fraction = x

/-- Placing the point, and zeros where digits are missing, does not change what is denoted. -/
theorem positional_isFloatLiteral (digits : List Char) (e : Int) (hne : digits ≠ [])
    (hdigits : ∀ c ∈ digits, c.isDigit = true) :
    IsFloatLiteral (positional digits e) (assemble false (read (natOfDigits digits) e)) := by
  have hzeros : ∀ n, ∀ c ∈ List.replicate n '0', c.isDigit = true := by
    intro n c hc
    rw [(List.mem_replicate.mp hc).2]
    rfl
  have hpos : 0 < digits.length := List.length_pos_iff.mpr hne
  unfold positional
  by_cases he : 0 ≤ e
  · -- a whole number: zeros behind the digits, and one more behind the point
    rw [if_pos he]
    refine ⟨digits ++ List.replicate e.toNat '0', ['0'], rfl, by simp [hne], ?_, by simp,
      by simp, ?_⟩
    · intro c hc
      rcases List.mem_append.mp hc with h | h
      · exact hdigits c h
      · exact hzeros _ c h
    · have hall : digits ++ List.replicate e.toNat '0' ++ ['0']
          = digits ++ List.replicate (e.toNat + 1) '0' := by
        rw [List.append_assoc, List.replicate_succ']
      rw [ofFraction, hall, natOfDigits_append_zeros, read_shifts]
      congr 2
      simp only [List.length_singleton]
      omega
  · rw [if_neg he]
    generalize hk : (-e).toNat = places
    have he : e = -(places : Int) := by omega
    simp only []
    by_cases hlt : places < digits.length
    · -- the point falls between two digits
      rw [if_pos hlt]
      refine ⟨digits.take (digits.length - places), digits.drop (digits.length - places), rfl,
        ?_, fun c hc => hdigits c (List.mem_of_mem_take hc), ?_,
        fun c hc => hdigits c (List.mem_of_mem_drop hc), ?_⟩
      · rw [← List.length_pos_iff, List.length_take]
        omega
      · rw [← List.length_pos_iff, List.length_drop]
        omega
      · rw [ofFraction, List.take_append_drop, List.length_drop, he]
        congr 3
        omega
    · -- the point falls in front of the digits, with zeros between
      rw [if_neg hlt]
      refine ⟨['0'], List.replicate (places - digits.length) '0' ++ digits, rfl, by simp, by simp,
        by simp [hne], ?_, ?_⟩
      · intro c hc
        rcases List.mem_append.mp hc with h | h
        · exact hzeros _ c h
        · exact hdigits c h
      · have hall : ['0'] ++ (List.replicate (places - digits.length) '0' ++ digits)
            = List.replicate (places - digits.length + 1) '0' ++ digits := rfl
        rw [ofFraction, hall, natOfDigits_zeros_append, List.length_append, List.length_replicate,
          he]
        congr 3
        omega

/-- A float that is not negative is its own magnitude. -/
theorem assemble_magnitude {x : Binary64} (h : x.isNegative = false) :
    assemble false x.magnitude = x := by
  have hlt : x.bits.toNat < signWeight := by
    have := of_decide_eq_false h
    omega
  unfold assemble magnitude
  rw [Nat.mod_eq_of_lt hlt]
  show Binary64.mk (UInt64.ofNat (x.bits.toNat + 0)) = x
  rw [Nat.add_zero, UInt64.ofNat_toNat]

/-- **The text of a finite float without a sign is a literal of that float.** -/
theorem floatText_isFloatLiteral {x : Binary64} (hfin : x.isFinite = true)
    (hneg : x.isNegative = false) : IsFloatLiteral (floatText x).toList x := by
  have hlt : x.magnitude < infinityBits := of_decide_eq_true hfin
  have hnan : x.isNaN = false := decide_eq_false (by omega)
  have htext : (floatText x).toList = magnitudeText x.magnitude := by
    rw [floatText, hnan, hneg, hfin]
    simp
  rw [htext, magnitudeText]
  by_cases hzero : x.magnitude = 0
  · rw [if_pos hzero]
    refine ⟨['0'], ['0'], rfl, by simp, by simp, by simp, by simp, ?_⟩
    rw [← assemble_magnitude hneg, hzero]
    rfl
  · rw [if_neg hzero]
    have hread := read_shortest (Nat.pos_of_ne_zero hzero) hlt
    have hliteral := positional_isFloatLiteral (digitsOfNat (shortest x.magnitude).1)
      (shortest x.magnitude).2 (digitsOfNat_ne_nil _) fun c => isDigit_of_mem_digitsOfNat
    rw [natOfDigits_digitsOfNat, hread, assemble_magnitude hneg] at hliteral
    exact hliteral

example : IsFloatLiteral ['0', '.', '1', '2', '5'] ⟨0x3FC0000000000000⟩ :=
  ⟨['0'], ['1', '2', '5'], rfl, nofun, List.all_eq_true.mp (by decide), nofun,
    List.all_eq_true.mp (by decide), by decide +kernel⟩

end Decimal

/-! ## Integers -/

/-- A number fits if it is a 64-bit integer, and it is that integer. -/
theorem Integer.fit?_eq_some_iff {n : Int} {i : Int64} : fit? n = some i ↔ i.toInt = n := by
  unfold fit?
  constructor
  · intro h
    split at h
    case isTrue hrange =>
      rw [← Option.some.inj h]
      refine Int64.toInt_ofInt_of_le hrange.1 ?_
      have hle : n ≤ 0x7FFFFFFFFFFFFFFF := hrange.2
      omega
    case isFalse => exact nomatch h
  · rintro rfl
    have hlt : i.toInt < 0x8000000000000000 := i.toInt_lt
    have hle : i.toInt ≤ greatest := Int.le_of_lt_add_one hlt
    rw [if_pos ⟨i.le_toInt, hle⟩, Int64.ofInt_toInt]

/-- **The text of an integer without a sign** is its digits, and they fit the integer again. -/
theorem Integer.text_literal {n : Int64} (h : 0 ≤ n.toInt) :
    (Integer.text n).toList = Decimal.digitsOfNat n.toInt.toNat ∧
      Integer.fit? (Decimal.natOfDigits (Decimal.digitsOfNat n.toInt.toNat)) = some n := by
  obtain ⟨m, hm⟩ := Int.eq_ofNat_of_zero_le h
  constructor
  · rw [Integer.text, hm]
    show (Nat.repr m).toList = _
    rw [Nat.repr, String.toList_ofList]
    rfl
  · rw [Decimal.natOfDigits_digitsOfNat, Integer.fit?_eq_some_iff, Int.toNat_of_nonneg h]

end Scriptlet
