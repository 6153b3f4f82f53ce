/-
  Rounding a ratio to 64 bits.

  1. **Orders of magnitude** — `Reaches num den k` says `2 ^ k ≤ num / den` without fractions, for
     any integer `k`.  `floorLog2` is the one `k` that a ratio reaches while it does not reach the
     next (`floorLog2_eq`).
  2. **A ratio is a number** (`ofRatio_mul`) — the bits nearest to a ratio do not change when the
     ratio is expanded.
  3. **The crux (`ofRatio_decode`)** — a finite magnitude, decoded to a ratio, rounds to itself.
-/
import Scriptlet.Number.Binary64

namespace Scriptlet.Binary64

/-! ## Powers of two -/

theorem pow2_add (a b : Nat) : pow2 (a + b) = pow2 a * pow2 b := Nat.pow_add 2 a b

theorem pow2_pos (a : Nat) : 0 < pow2 a := Nat.pow_pos (by decide)

theorem pow2_le {a b : Nat} (h : a ≤ b) : pow2 a ≤ pow2 b := Nat.pow_le_pow_right (by decide) h

/-- The logarithm is the largest power below. -/
theorem pow2_log2_le {n : Nat} (h : 0 < n) : pow2 n.log2 ≤ n :=
  Nat.log2_self_le (Nat.pos_iff_ne_zero.mp h)

theorem lt_pow2_log2 (n : Nat) : n < pow2 (n.log2 + 1) := Nat.lt_log2_self

/-! ## Orders of magnitude -/

variable {num den c : Nat} {j k : Int}

/-- The ratio is at least `2 ^ k`. -/
def Reaches (num den : Nat) (k : Int) : Prop := den * pow2 k.toNat ≤ num * pow2 (-k).toNat

/-- A ratio is scaled by a power of two, up or down. -/
theorem scale_eq (num den : Nat) (q : Int) :
    scale num den q = (num * pow2 (-q).toNat, den * pow2 q.toNat) := by
  unfold scale
  split
  · rename_i hq
    have : (-q).toNat = 0 := by omega
    rw [this, show pow2 0 = 1 from rfl, Nat.mul_one]
  · rename_i hq
    have : q.toNat = 0 := by omega
    rw [this, show pow2 0 = 1 from rfl, Nat.mul_one]

/-- A ratio reaches every order below one that it reaches. -/
theorem Reaches.anti (h : Reaches num den k) (hjk : j ≤ k) : Reaches num den j := by
  have hup : pow2 j.toNat ≤ pow2 k.toNat := pow2_le (by omega)
  have hdown : pow2 (-k).toNat ≤ pow2 (-j).toNat := pow2_le (by omega)
  calc den * pow2 j.toNat ≤ den * pow2 k.toNat := Nat.mul_le_mul_left den hup
    _ ≤ num * pow2 (-k).toNat := h
    _ ≤ num * pow2 (-j).toNat := Nat.mul_le_mul_left num hdown

/-- Expanding a ratio changes no order of magnitude. -/
theorem reaches_mul (hc : 0 < c) : Reaches (num * c) (den * c) k ↔ Reaches num den k := by
  have hcomm : ∀ a b : Nat, a * c * b = a * b * c := fun a b => Nat.mul_right_comm a c b
  unfold Reaches
  rw [hcomm, hcomm]
  exact Nat.mul_le_mul_right_iff hc

/-- The order that `floorLog2` finds is reached, and the next one is not. -/
theorem floorLog2_spec (hn : 0 < num) (hd : 0 < den) :
    Reaches num den (floorLog2 num den) ∧ ¬ Reaches num den (floorLog2 num den + 1) := by
  -- the guess is off by at most one, since each logarithm is exact up to its integer part
  have hlow : Reaches num den ((num.log2 : Int) - (den.log2 : Int) - 1) := by
    have hexp : den.log2 + 1 + ((num.log2 : Int) - (den.log2 : Int) - 1).toNat
        = num.log2 + (-((num.log2 : Int) - (den.log2 : Int) - 1)).toNat := by omega
    refine Nat.le_trans (Nat.mul_le_mul_right _ (Nat.le_of_lt (lt_pow2_log2 den))) ?_
    rw [← pow2_add, hexp, pow2_add]
    exact Nat.mul_le_mul_right _ (pow2_log2_le hn)
  have hhigh : ¬ Reaches num den ((num.log2 : Int) - (den.log2 : Int) + 1) := by
    have hexp : num.log2 + 1 + (-((num.log2 : Int) - (den.log2 : Int) + 1)).toNat
        = den.log2 + ((num.log2 : Int) - (den.log2 : Int) + 1).toNat := by omega
    refine Nat.not_le_of_lt ?_
    refine Nat.lt_of_lt_of_le (Nat.mul_lt_mul_of_pos_right (lt_pow2_log2 num) (pow2_pos _)) ?_
    rw [← pow2_add, hexp, pow2_add]
    exact Nat.mul_le_mul_right _ (pow2_log2_le hd)
  unfold floorLog2
  simp only [scale_eq]
  split
  · rename_i h
    exact ⟨h, hhigh⟩
  · rename_i h
    refine ⟨hlow, ?_⟩
    rw [Int.sub_add_cancel]
    exact h

/-- Only one order is reached while the next is not. -/
theorem floorLog2_eq (hn : 0 < num) (hd : 0 < den) (h : Reaches num den k)
    (h' : ¬ Reaches num den (k + 1)) : floorLog2 num den = k := by
  obtain ⟨hf, hf'⟩ := floorLog2_spec hn hd
  have hle : floorLog2 num den ≤ k := by
    refine Int.not_lt.mp fun hlt => h' (hf.anti ?_)
    omega
  have hge : k ≤ floorLog2 num den := by
    refine Int.not_lt.mp fun hlt => hf' (h.anti ?_)
    omega
  omega

/-! ## Expanding a ratio -/

/-- The order of magnitude is that of the number. -/
theorem floorLog2_mul (hn : 0 < num) (hd : 0 < den) (hc : 0 < c) :
    floorLog2 (num * c) (den * c) = floorLog2 num den := by
  obtain ⟨hf, hf'⟩ := floorLog2_spec hn hd
  refine floorLog2_eq (Nat.mul_pos hn hc) (Nat.mul_pos hd hc) ((reaches_mul hc).mpr hf) ?_
  rw [reaches_mul hc]
  exact hf'

/-- Expanding a ratio changes no rounding. -/
theorem roundDiv_mul (hc : 0 < c) : roundDiv (num * c) (den * c) = roundDiv num den := by
  have hdiv : num * c / (den * c) = num / den := Nat.mul_div_mul_right num den hc
  have hmod : 2 * (num * c % (den * c)) = 2 * (num % den) * c := by
    rw [Nat.mul_mod_mul_right, Nat.mul_assoc]
  have hlt : decide (2 * (num % den) * c < den * c) = decide (2 * (num % den) < den) :=
    decide_eq_decide.mpr (Nat.mul_lt_mul_right hc)
  have heq : (2 * (num % den) * c == den * c) = (2 * (num % den) == den) := by
    rw [Bool.eq_iff_iff, beq_iff_eq, beq_iff_eq]
    exact Nat.mul_left_inj (Nat.pos_iff_ne_zero.mp hc)
  unfold roundDiv
  simp only [hdiv, hmod, hlt, heq]

/-- The bits nearest to a positive ratio, without case distinctions on the exponent. -/
theorem ofRatio_eq (hn : 0 < num) : ofRatio num den =
    min infinityBits ((max (-1074) (floorLog2 num den - 52) + 1074).toNat * unit +
      roundDiv (num * pow2 (-(max (-1074) (floorLog2 num den - 52))).toNat)
        (den * pow2 (max (-1074) (floorLog2 num den - 52)).toNat)) := by
  unfold ofRatio
  rw [if_neg (Nat.pos_iff_ne_zero.mp hn)]
  simp only [scale_eq]

/-- **An expanded ratio rounds to the same bits.** -/
theorem ofRatio_mul (hd : 0 < den) (hc : 0 < c) :
    ofRatio (num * c) (den * c) = ofRatio num den := by
  rcases Nat.eq_zero_or_pos num with rfl | hn
  · rw [Nat.zero_mul, ofRatio, ofRatio, if_pos rfl, if_pos rfl]
  · rw [ofRatio_eq (Nat.mul_pos hn hc), ofRatio_eq hn, floorLog2_mul hn hd hc]
    generalize max (-1074) (floorLog2 num den - 52) = q
    rw [Nat.mul_right_comm num, Nat.mul_right_comm den, roundDiv_mul hc]

/-! ## Decoding -/

/-- A whole number rounds to itself. -/
theorem roundDiv_mul_self {m d : Nat} (hd : 0 < d) : roundDiv (m * d) d = m := by
  unfold roundDiv
  simp only [Nat.mul_mod_left, Nat.mul_zero, Nat.mul_div_cancel m hd]
  rw [decide_eq_true hd]
  rfl

/-- A magnitude and an exponent as a ratio of whole numbers. -/
theorem ratio_eq (m : Nat) (q : Int) : ratio m q = (m * pow2 q.toNat, pow2 (-q).toNat) := by
  unfold ratio
  split
  · rename_i hq
    have : (-q).toNat = 0 := by omega
    rw [this]
    rfl
  · rename_i hq
    have : q.toNat = 0 := by omega
    rw [this, show pow2 0 = 1 from rfl, Nat.mul_one]

/-- A mantissa at its own exponent is rounded to itself. -/
theorem roundDiv_ratio (m : Nat) (q : Int) :
    roundDiv (m * pow2 q.toNat * pow2 (-q).toNat) (pow2 (-q).toNat * pow2 q.toNat) = m := by
  rw [Nat.mul_assoc, Nat.mul_comm (pow2 q.toNat)]
  exact roundDiv_mul_self (Nat.mul_pos (pow2_pos _) (pow2_pos _))

/-- A magnitude of so many bits reaches the order of its highest one. -/
theorem reaches_ratio {m e : Nat} {q : Int} (h : pow2 e ≤ m) :
    Reaches (m * pow2 q.toNat) (pow2 (-q).toNat) (e + q) := by
  have hexp : (-q).toNat + (e + q).toNat = e + (q.toNat + (-(e + q)).toNat) := by omega
  unfold Reaches
  rw [← pow2_add, hexp, pow2_add, pow2_add, Nat.mul_assoc]
  exact Nat.mul_le_mul_right _ h

/-- It reaches no order above. -/
theorem not_reaches_ratio {m e : Nat} {q : Int} (h : m < pow2 e) :
    ¬ Reaches (m * pow2 q.toNat) (pow2 (-q).toNat) (e + q) := by
  have hexp : (-q).toNat + (e + q).toNat = e + (q.toNat + (-(e + q)).toNat) := by omega
  unfold Reaches
  rw [← pow2_add, hexp, pow2_add, pow2_add, Nat.mul_assoc]
  exact Nat.not_le_of_lt (Nat.mul_lt_mul_of_pos_right h (Nat.mul_pos (pow2_pos _) (pow2_pos _)))

/-- **A finite magnitude rounds to itself**, by cases on whether it is subnormal. -/
theorem ofRatio_decode {bits : Nat} (hpos : 0 < bits) (hfin : bits < infinityBits) :
    ofRatio (ratio (decode bits).1 (decode bits).2).1 (ratio (decode bits).1 (decode bits).2).2
      = bits := by
  have hunit : unit = 4503599627370496 := by decide
  have hsplit : unit * (bits / unit) + bits % unit = bits := Nat.div_add_mod bits unit
  have hmod : bits % unit < unit := Nat.mod_lt bits (by decide)
  unfold decode
  by_cases hexp : bits / unit = 0
  · simp only [if_pos hexp, ratio_eq]
    have hm : bits % unit = bits := by rw [hexp] at hsplit; omega
    rw [hm] at hmod ⊢
    have hnum : 0 < bits * pow2 (-1074 : Int).toNat := Nat.mul_pos hpos (pow2_pos _)
    rw [ofRatio_eq hnum]
    -- below the least normal number the exponent is the lowest one
    have hlog :
        floorLog2 (bits * pow2 (-1074 : Int).toNat) (pow2 (-(-1074) : Int).toNat) < -1022 := by
      have hnot := not_reaches_ratio (m := bits) (e := 52) (q := -1074) hmod
      refine Int.not_le.mp fun hle => hnot ((floorLog2_spec hnum (pow2_pos _)).1.anti ?_)
      exact hle
    have hq : max (-1074) (floorLog2 (bits * pow2 (-1074 : Int).toNat)
        (pow2 (-(-1074) : Int).toNat) - 52) = -1074 := by omega
    rw [hq, roundDiv_ratio]
    have : ((-1074 : Int) + 1074).toNat * unit + bits = bits := by
      rw [show ((-1074 : Int) + 1074).toNat = 0 from rfl]
      omega
    rw [this]
    omega
  · simp only [if_neg hexp, ratio_eq]
    have hE : 1 ≤ bits / unit := Nat.pos_of_ne_zero hexp
    generalize hq : ((bits / unit : Nat) : Int) - 1075 = q
    have hmpos : 0 < unit + bits % unit := by omega
    have hnum : 0 < (unit + bits % unit) * pow2 q.toNat := Nat.mul_pos hmpos (pow2_pos _)
    have hlog : floorLog2 ((unit + bits % unit) * pow2 q.toNat) (pow2 (-q).toNat)
        = ((52 : Nat) : Int) + q := by
      refine floorLog2_eq hnum (pow2_pos _) (reaches_ratio ?_) ?_
      · show unit ≤ unit + bits % unit
        omega
      · have hlt : unit + bits % unit < pow2 53 := by
          rw [show pow2 53 = unit * 2 from rfl]
          omega
        have hnot := not_reaches_ratio (m := unit + bits % unit) (e := 53) (q := q) hlt
        rwa [show ((53 : Nat) : Int) + q = ((52 : Nat) : Int) + q + 1 by omega] at hnot
    rw [ofRatio_eq hnum, hlog]
    have hmax : max (-1074) (((52 : Nat) : Int) + q - 52) = q := by omega
    rw [hmax, roundDiv_ratio]
    have htotal : (q + 1074).toNat * unit + (unit + bits % unit) = bits := by
      have : (q + 1074).toNat + 1 = bits / unit := by omega
      calc (q + 1074).toNat * unit + (unit + bits % unit)
          = unit * ((q + 1074).toNat + 1) + bits % unit := by
            rw [Nat.mul_add, Nat.mul_comm unit]; omega
        _ = bits := by rw [this]; exact hsplit
    rw [htotal]
    omega

end Scriptlet.Binary64
