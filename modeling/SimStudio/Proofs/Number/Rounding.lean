import SimStudio.Number.Decimal
import Mathlib.Algebra.Order.Archimedean.Basic
import Mathlib.Algebra.Order.Field.Power
import Mathlib.Algebra.Order.Field.Rat
import Mathlib.Data.Rat.Cast.Order
import Mathlib.Data.Rat.Floor
import Mathlib.Tactic.FieldSimp
import Mathlib.Tactic.Linarith
import Mathlib.Tactic.NormNum
import Mathlib.Tactic.Positivity
import Mathlib.Tactic.Ring

/-!
# Rounding to a Magnitude

The numbers that round to a given magnitude fill an interval around it. It
reaches half a unit in both directions, or a quarter downward where the unit
below is half as large, and its ends belong to it if the mantissa is even.
`ofRatio?_eq_some` says that rounding takes every positive number of the
interval to the magnitude.

The unit in which `Magnitude.ofRatio?` rounds is that of the number, not that
of the magnitude. The two differ only where the number lies just below a power
of two and rounds up to it; there the mantissa comes out as `2 ^ 53` in half
the unit, which is the place of `2 ^ 52` in the whole one.

## Main definitions

* `Magnitude.unit`: The distance to the next magnitude.
* `Magnitude.value`: The number that a magnitude is.
* `Magnitude.Attracts`: A number lies in the interval of a magnitude.
* `Magnitude.IsJustBelow`: A number lies just below the power of two that attracts it.

## Theorems

* `roundEven_eq`: The integer whose half unit a quotient lies in.
* `Magnitude.binaryOrder_eq`: The power of two below a quotient.
* `Magnitude.max_binaryOrder_eq`, `Magnitude.ofRatio?_of_isJustBelow`: In which unit a
  number is rounded.
* `Magnitude.ofRatio?_eq_some`: A number rounds to what attracts it.
-/

namespace SimStudio

/-- A quotient rounds to the integer whose half unit it lies in; the ends of
    that half unit count for even integers. -/
theorem roundEven_eq {num den m : Nat} (hd : 0 < den)
    (hlow : 2 * (den * m) < 2 * num + den ∨ 2 * (den * m) = 2 * num + den ∧ m % 2 = 0)
    (hhigh : 2 * num < 2 * (den * m) + den ∨ 2 * num = 2 * (den * m) + den ∧ m % 2 = 0) :
    roundEven num den = m := by
  have hdiv : den * (num / den) + num % den = num := Nat.div_add_mod num den
  have hmod : num % den < den := Nat.mod_lt num hd
  -- The quotient is the integer itself or the one before it.
  have hle : num / den ≤ m := by
    by_contra hlt
    have hmul : den * (m + 1) ≤ den * (num / den) := Nat.mul_le_mul_left den (by omega)
    rw [Nat.mul_add, Nat.mul_one] at hmul
    omega
  have hge : m ≤ num / den + 1 := by
    by_contra hlt
    have hmul : den * (num / den + 2) ≤ den * m := Nat.mul_le_mul_left den (by omega)
    rw [Nat.mul_add] at hmul
    omega
  simp only [roundEven]
  by_cases heq : m = num / den
  · rw [← heq] at hdiv ⊢
    split
    · rfl
    · split
      · omega
      · split <;> omega
  · have hsucc : m = num / den + 1 := by omega
    have hmul : den * m = den * (num / den) + den := by rw [hsucc, Nat.mul_add, Nat.mul_one]
    split
    · omega
    · split
      · omega
      · split <;> omega

namespace Magnitude

/-- The distance to the next magnitude. -/
def unit (a : Magnitude) : ℚ := 2 ^ a.exponent

/-- The number that a magnitude is. -/
def value (a : Magnitude) : ℚ := a.mantissa * a.unit

/-- How far the interval of a magnitude reaches downward, in units. -/
def reach (a : Magnitude) : ℚ := if a.mantissa = 2 ^ 52 ∧ -1074 < a.exponent then 1 / 4 else 1 / 2

/-- A number lies in the interval of a magnitude. -/
structure Attracts (a : Magnitude) (x : ℚ) : Prop where
  low : (a.mantissa - a.reach) * a.unit < x ∨
    (a.mantissa - a.reach) * a.unit = x ∧ a.mantissa % 2 = 0
  high : x < (a.mantissa + 1 / 2) * a.unit ∨
    x = (a.mantissa + 1 / 2) * a.unit ∧ a.mantissa % 2 = 0

theorem unit_pos (a : Magnitude) : 0 < a.unit := zpow_pos (by norm_num) _

theorem mantissa_lt (a : Magnitude) : a.mantissa < 2 ^ 53 := by
  have hmod := Nat.mod_lt a.place (show 0 < 2 ^ 52 by decide)
  rw [mantissa]
  split <;> omega

theorem exponent_ge (a : Magnitude) : -1074 ≤ a.exponent := by
  rw [exponent]
  split
  · omega
  · have hdiv : 1 ≤ a.place / 2 ^ 52 := by omega
    omega

theorem exponent_le (a : Magnitude) : a.exponent ≤ 971 := by
  have hlt := a.place_lt
  rw [exponent]
  split
  · omega
  · have hdiv : a.place / 2 ^ 52 < 2047 := by omega
    omega

/-- A mantissa below `2 ^ 52` has the least exponent. -/
theorem exponent_eq_of_mantissa_lt {a : Magnitude} (h : a.mantissa < 2 ^ 52) :
    a.exponent = -1074 := by
  rw [mantissa] at h
  rw [exponent]
  split at h
  · rename_i hplace
    rw [if_pos hplace]
  · omega

/-- A magnitude is found by its exponent and its mantissa. -/
theorem place_eq (a : Magnitude) : (a.exponent + 1074).toNat * 2 ^ 52 + a.mantissa = a.place := by
  rw [exponent, mantissa]
  by_cases h : a.place < 2 ^ 52
  · have hexp : ((-1074 : Int) + 1074).toNat = 0 := by omega
    rw [if_pos h, if_pos h, hexp, Nat.zero_mul, Nat.zero_add]
  · have hdiv := Nat.div_add_mod a.place (2 ^ 52)
    have hexp : (((a.place / 2 ^ 52 : Nat) : Int) - 1075 + 1074).toNat = a.place / 2 ^ 52 - 1 := by
      omega
    rw [if_neg h, if_neg h, hexp]
    omega

theorem isZero_iff (a : Magnitude) : a.isZero = true ↔ a.mantissa = 0 := by
  rw [isZero, beq_iff_eq, mantissa]
  split <;> omega

theorem zpow_two_of_nonneg {e : Int} (h : 0 ≤ e) : (2 : ℚ) ^ e = ((2 ^ e.toNat : Nat) : ℚ) := by
  rw [Nat.cast_pow, Nat.cast_ofNat, ← zpow_natCast, Int.toNat_of_nonneg h]

theorem zpow_two_of_neg {e : Int} (h : e < 0) :
    (2 : ℚ) ^ e = ((2 ^ (-e).toNat : Nat) : ℚ)⁻¹ := by
  rw [Nat.cast_pow, Nat.cast_ofNat, ← zpow_natCast, Int.toNat_of_nonneg (by omega), zpow_neg,
    inv_inv]

/-- The quotient of a magnitude is its value. -/
theorem toRatio_eq (a : Magnitude) : (a.toRatio.1 : ℚ) / a.toRatio.2 = a.value := by
  rw [toRatio, value, unit]
  by_cases h : 0 ≤ a.exponent
  · rw [if_pos h, zpow_two_of_nonneg h, Nat.cast_mul, Nat.cast_one, div_one]
  · rw [if_neg h, zpow_two_of_neg (not_le.mp h), div_eq_mul_inv]

theorem toRatio_snd_pos (a : Magnitude) : 0 < a.toRatio.2 := by
  rw [toRatio]
  split
  · exact Nat.one_pos
  · exact Nat.pow_pos (by decide)

/-- Whether a power of two lies below a quotient can be told without
    fractions. -/
theorem reached_eq {num den : Nat} (hd : 0 < den) (e : Int) :
    (if 0 ≤ e then decide (den * 2 ^ e.toNat ≤ num) else decide (den ≤ num * 2 ^ (-e).toNat))
      = decide ((2 : ℚ) ^ e ≤ (num : ℚ) / den) := by
  have hd' : (0 : ℚ) < den := by exact_mod_cast hd
  by_cases h : 0 ≤ e
  · rw [if_pos h]
    refine decide_eq_decide.mpr ?_
    rw [zpow_two_of_nonneg h, le_div_iff₀ hd', mul_comm, ← Nat.cast_mul, Nat.cast_le]
  · have hpow : (0 : ℚ) < ((2 ^ (-e).toNat : Nat) : ℚ) := by positivity
    rw [if_neg h]
    refine decide_eq_decide.mpr ?_
    rw [zpow_two_of_neg (not_le.mp h), le_div_iff₀ hd', inv_mul_le_iff₀ hpow, mul_comm,
      ← Nat.cast_mul, Nat.cast_le]

/-- What the order of a quotient is, by the two powers of two around it. -/
theorem binaryOrder_eq {num den : Nat} (hn : 0 < num) (hd : 0 < den) {e : Int}
    (hlow : (2 : ℚ) ^ e ≤ (num : ℚ) / den) (hhigh : (num : ℚ) / den < 2 ^ (e + 1)) :
    binaryOrder num den = e := by
  have htwo : (1 : ℚ) < 2 := by norm_num
  have hd' : (0 : ℚ) < den := by exact_mod_cast hd
  have hn' : (0 : ℚ) < num := by exact_mod_cast hn
  -- The difference of the logarithms is the order or one more.
  have hnum : (2 : ℚ) ^ (num.log2 : Int) ≤ num := by
    rw [zpow_natCast]
    exact_mod_cast Nat.log2_self_le (by omega)
  have hnum' : (num : ℚ) < 2 ^ ((num.log2 : Int) + 1) := by
    rw [show ((num.log2 : Int) + 1) = ((num.log2 + 1 : Nat) : Int) by push_cast; rfl, zpow_natCast]
    exact_mod_cast Nat.lt_log2_self
  have hden : (2 : ℚ) ^ (den.log2 : Int) ≤ den := by
    rw [zpow_natCast]
    exact_mod_cast Nat.log2_self_le (by omega)
  have hden' : (den : ℚ) < 2 ^ ((den.log2 : Int) + 1) := by
    rw [show ((den.log2 : Int) + 1) = ((den.log2 + 1 : Nat) : Int) by push_cast; rfl, zpow_natCast]
    exact_mod_cast Nat.lt_log2_self
  have hupper : e < (num.log2 : Int) - den.log2 + 1 := by
    have h : (2 : ℚ) ^ e < 2 ^ ((num.log2 : Int) - den.log2 + 1) := by
      refine lt_of_le_of_lt hlow ?_
      rw [div_lt_iff₀ hd']
      refine lt_of_lt_of_le hnum' ?_
      calc (2 : ℚ) ^ ((num.log2 : Int) + 1)
          = 2 ^ ((num.log2 : Int) - den.log2 + 1) * 2 ^ (den.log2 : Int) := by
            rw [← zpow_add₀ (by norm_num)]
            congr 1
            omega
        _ ≤ 2 ^ ((num.log2 : Int) - den.log2 + 1) * den :=
            mul_le_mul_of_nonneg_left hden (zpow_nonneg (by norm_num) _)
    exact (zpow_lt_zpow_iff_right₀ htwo).mp h
  have hlower : (num.log2 : Int) - den.log2 - 1 < e + 1 := by
    have h : (2 : ℚ) ^ ((num.log2 : Int) - den.log2 - 1) < 2 ^ (e + 1) := by
      refine lt_of_le_of_lt ?_ hhigh
      rw [le_div_iff₀ hd']
      calc (2 : ℚ) ^ ((num.log2 : Int) - den.log2 - 1) * den
          ≤ 2 ^ ((num.log2 : Int) - den.log2 - 1) * 2 ^ ((den.log2 : Int) + 1) :=
            mul_le_mul_of_nonneg_left hden'.le (zpow_nonneg (by norm_num) _)
        _ = 2 ^ (num.log2 : Int) := by
            rw [← zpow_add₀ (by norm_num)]
            congr 1
            omega
        _ ≤ num := hnum
    exact (zpow_lt_zpow_iff_right₀ htwo).mp h
  -- The comparison tells which.
  simp only [binaryOrder]
  rw [reached_eq hd]
  by_cases hcmp : (2 : ℚ) ^ ((num.log2 : Int) - den.log2) ≤ (num : ℚ) / den
  · have hlt := (zpow_lt_zpow_iff_right₀ htwo).mp (lt_of_le_of_lt hcmp hhigh)
    rw [decide_eq_true hcmp, if_pos rfl]
    omega
  · have hlt := (zpow_lt_zpow_iff_right₀ htwo).mp (lt_of_le_of_lt hlow (not_le.mp hcmp))
    rw [decide_eq_false hcmp, if_neg Bool.false_ne_true]
    omega

/-- A quotient rounds in a unit to the integer whose half unit it lies in. -/
theorem rounded_eq (num m : Nat) {den : Nat} (hd : 0 < den) (e : Int)
    (hlow : (m - 1 / 2) * 2 ^ e < (num : ℚ) / den ∨
      (m - 1 / 2) * 2 ^ e = (num : ℚ) / den ∧ m % 2 = 0)
    (hhigh : (num : ℚ) / den < (m + 1 / 2) * 2 ^ e ∨
      (num : ℚ) / den = (m + 1 / 2) * 2 ^ e ∧ m % 2 = 0) :
    (if 0 ≤ e then roundEven num (den * 2 ^ e.toNat) else roundEven (num * 2 ^ (-e).toNat) den)
      = m := by
  -- In natural numbers: a numerator and a denominator of the quotient by the unit.
  have hmain : ∀ num' den' : Nat, 0 < den' → ((num' : ℚ) / den') * 2 ^ e = (num : ℚ) / den →
      roundEven num' den' = m := by
    intro num' den' hd' hquot
    have hpow : (0 : ℚ) < 2 ^ e := zpow_pos (by norm_num) e
    have hden : (0 : ℚ) < den' := by exact_mod_cast hd'
    rw [← hquot, mul_lt_mul_iff_left₀ hpow, mul_left_inj' hpow.ne', lt_div_iff₀ hden,
      eq_div_iff hden.ne'] at hlow
    rw [← hquot, mul_lt_mul_iff_left₀ hpow, mul_left_inj' hpow.ne', div_lt_iff₀ hden,
      div_eq_iff hden.ne'] at hhigh
    refine roundEven_eq hd' ?_ ?_
    · rcases hlow with h | ⟨h, heven⟩
      · have hcast : (2 * (den' * m) : ℚ) < 2 * num' + den' := by linarith
        exact .inl (by exact_mod_cast hcast)
      · have hcast : (2 * (den' * m) : ℚ) = 2 * num' + den' := by linarith
        exact .inr ⟨by exact_mod_cast hcast, heven⟩
    · rcases hhigh with h | ⟨h, heven⟩
      · have hcast : (2 * num' : ℚ) < 2 * (den' * m) + den' := by linarith
        exact .inl (by exact_mod_cast hcast)
      · have hcast : (2 * num' : ℚ) = 2 * (den' * m) + den' := by linarith
        exact .inr ⟨by exact_mod_cast hcast, heven⟩
  have hden : (den : ℚ) ≠ 0 := by
    have : (0 : ℚ) < den := by exact_mod_cast hd
    exact this.ne'
  by_cases h : 0 ≤ e
  · rw [if_pos h]
    refine hmain _ _ (Nat.mul_pos hd (Nat.pow_pos (by decide))) ?_
    rw [zpow_two_of_nonneg h, Nat.cast_mul]
    field_simp
  · rw [if_neg h]
    refine hmain _ _ hd ?_
    rw [zpow_two_of_neg (not_le.mp h), Nat.cast_mul]
    field_simp

theorem ofPlace?_place (a : Magnitude) : ofPlace? a.place = some a := by
  rw [ofPlace?, dif_pos a.place_lt]

theorem two_zpow_add (a : Magnitude) (k : Nat) : (2 : ℚ) ^ (a.exponent + k) = 2 ^ k * a.unit := by
  rw [zpow_add₀ (by norm_num), zpow_natCast, mul_comm]
  rfl

/-- Rounding in a unit finds the magnitude with the exponent of that unit and the mantissa
    that comes out. -/
theorem ofRatio?_of_rounded {a : Magnitude} {num den m : Nat} {e : Int} (hn : 0 < num)
    (hexponent : max (binaryOrder num den - 52) (-1074) = e)
    (hround : (if 0 ≤ e then roundEven num (den * 2 ^ e.toNat)
      else roundEven (num * 2 ^ (-e).toNat) den) = m)
    (hplace : (e + 1074).toNat * 2 ^ 52 + m = a.place) : ofRatio? num den = some a := by
  rw [ofRatio?, if_neg (by omega)]
  simp only
  rw [hexponent, hround, hplace, a.ofPlace?_place]

/-- A number just below a power of two, whose magnitude is that power. -/
structure IsJustBelow (a : Magnitude) (x : ℚ) : Prop where
  mantissa : a.mantissa = 2 ^ 52
  exponent : -1074 < a.exponent
  lt : x < 2 ^ 52 * a.unit

namespace Attracts

variable {a : Magnitude} {x : ℚ}

/-- What is attracted lies below `2 ^ 53` units. -/
theorem lt_zpow (h : a.Attracts x) : x < 2 ^ (a.exponent + 53) := by
  have hle : (a.mantissa : ℚ) + 1 ≤ 2 ^ 53 := by exact_mod_cast a.mantissa_lt
  have hmul : ((a.mantissa : ℚ) + 1 / 2) * a.unit < 2 ^ 53 * a.unit :=
    mul_lt_mul_of_pos_right (by linarith) a.unit_pos
  rw [show a.exponent + 53 = a.exponent + (53 : Nat) by rfl, two_zpow_add]
  rcases h.high with hlt | ⟨heq, _⟩
  · exact hlt.trans hmul
  · exact heq ▸ hmul

/-- Just below a power of two the interval ends a quarter of the unit further down. -/
theorem low_of_isJustBelow (h : a.Attracts x) (hbelow : a.IsJustBelow x) :
    (2 ^ 52 - 1 / 4) * a.unit ≤ x := by
  have hlow := h.low
  rw [reach, if_pos ⟨hbelow.mantissa, hbelow.exponent⟩, hbelow.mantissa] at hlow
  push_cast at hlow
  rcases hlow with hlt | ⟨heq, _⟩
  · exact hlt.le
  · exact heq.le

/-- Everywhere else, it is as if the interval ended half a unit further down. -/
theorem low_of_not_isJustBelow (h : a.Attracts x) (hnot : ¬a.IsJustBelow x) :
    (a.mantissa - 1 / 2) * a.unit < x ∨
      (a.mantissa - 1 / 2) * a.unit = x ∧ a.mantissa % 2 = 0 := by
  have hlow := h.low
  rw [reach] at hlow
  split at hlow
  · -- The number is at the power of two or above it, which is more than half a unit.
    rename_i hpow
    have hge : 2 ^ 52 * a.unit ≤ x := not_lt.mp fun hlt => hnot ⟨hpow.1, hpow.2, hlt⟩
    refine .inl (lt_of_lt_of_le ?_ hge)
    rw [hpow.1]
    push_cast
    exact mul_lt_mul_of_pos_right (by norm_num) a.unit_pos
  · exact hlow

/-- Below `2 ^ 52` units, but not just below, only the least exponent is left. -/
theorem exponent_eq (h : a.Attracts x) (hnot : ¬a.IsJustBelow x) (hlt : x < 2 ^ 52 * a.unit) :
    a.exponent = -1074 := by
  have hmantissa : a.mantissa ≤ 2 ^ 52 := by
    by_contra hgt
    have hbig : (2 ^ 52 + 1 : ℚ) ≤ a.mantissa := by
      exact_mod_cast (show 2 ^ 52 + 1 ≤ a.mantissa by omega)
    have hmul := mul_le_mul_of_nonneg_right hbig a.unit_pos.le
    have hunit := a.unit_pos
    rcases h.low_of_not_isJustBelow hnot with hlow | ⟨hlow, _⟩ <;> linarith
  rcases Nat.lt_or_eq_of_le hmantissa with hsmall | heq
  · exact exponent_eq_of_mantissa_lt hsmall
  · have hge := a.exponent_ge
    by_contra hne
    exact hnot ⟨heq, by omega, hlt⟩

end Attracts

section Rounding

variable {a : Magnitude} {num den : Nat}

/-- Otherwise a number is rounded in the unit of its magnitude. -/
theorem max_binaryOrder_eq (hn : 0 < num) (hd : 0 < den) (h : a.Attracts ((num : ℚ) / den))
    (hnot : ¬a.IsJustBelow ((num : ℚ) / den)) :
    max (binaryOrder num den - 52) (-1074) = a.exponent := by
  have hsplit : a.exponent + 52 = a.exponent + (52 : Nat) := rfl
  by_cases hlt : (num : ℚ) / den < 2 ^ 52 * a.unit
  · -- The order may be anything then, but it is too small to count.
    obtain ⟨e, hlow, hhigh⟩ := exists_mem_Ico_zpow (y := (2 : ℚ)) (x := (num : ℚ) / den)
      (by positivity) (by norm_num)
    have hpow : (2 : ℚ) ^ e < 2 ^ (a.exponent + 52) := by
      rw [hsplit, two_zpow_add]
      exact lt_of_le_of_lt hlow hlt
    have horder := (zpow_lt_zpow_iff_right₀ (by norm_num)).mp hpow
    have hexponent := h.exponent_eq hnot hlt
    rw [binaryOrder_eq hn hd hlow hhigh]
    omega
  · have hge := a.exponent_ge
    have horder : binaryOrder num den = a.exponent + 52 := by
      refine binaryOrder_eq hn hd ?_ ?_
      · rw [hsplit, two_zpow_add]
        exact not_lt.mp hlt
      · rw [show a.exponent + 52 + 1 = a.exponent + 53 by omega]
        exact h.lt_zpow
    omega

/-- Just below a power of two, the unit is half as large and the mantissa twice. -/
theorem ofRatio?_of_isJustBelow (hn : 0 < num) (hd : 0 < den)
    (h : a.Attracts ((num : ℚ) / den)) (hbelow : a.IsJustBelow ((num : ℚ) / den)) :
    ofRatio? num den = some a := by
  have hunit := a.unit_pos
  have hlow := h.low_of_isJustBelow hbelow
  have hhigh := hbelow.lt
  have hexponent := hbelow.exponent
  have hhalf : (2 : ℚ) ^ (a.exponent - 1) = a.unit / 2 := by
    rw [zpow_sub_one₀ (by norm_num), ← div_eq_mul_inv]
    rfl
  have horder : binaryOrder num den = a.exponent + 51 := by
    refine binaryOrder_eq hn hd ?_ ?_
    · rw [show a.exponent + 51 = a.exponent + (51 : Nat) by rfl, two_zpow_add]
      linarith
    · rw [show a.exponent + 51 + 1 = a.exponent + (52 : Nat) by omega, two_zpow_add]
      exact hhigh
  have hround := rounded_eq num (2 ^ 53) hd (a.exponent - 1)
    (by
      rw [hhalf]
      push_cast
      rcases hlow.lt_or_eq with hlt | heq
      · exact .inl (by linarith)
      · exact .inr ⟨by linarith, by norm_num⟩)
    (by
      rw [hhalf]
      push_cast
      exact .inl (by linarith))
  have hplace : (a.exponent - 1 + 1074).toNat * 2 ^ 52 + 2 ^ 53 = a.place := by
    have hnext : (a.exponent + 1074).toNat = (a.exponent - 1 + 1074).toNat + 1 := by omega
    rw [← a.place_eq, hbelow.mantissa, hnext]
    ring
  exact ofRatio?_of_rounded hn (by omega) hround hplace

/-- A number rounds to the magnitude that attracts it. -/
theorem ofRatio?_eq_some (hn : 0 < num) (hd : 0 < den) (h : a.Attracts ((num : ℚ) / den)) :
    ofRatio? num den = some a := by
  by_cases hbelow : a.IsJustBelow ((num : ℚ) / den)
  · exact ofRatio?_of_isJustBelow hn hd h hbelow
  · have hround := rounded_eq num a.mantissa hd a.exponent (h.low_of_not_isJustBelow hbelow) h.high
    exact ofRatio?_of_rounded hn (max_binaryOrder_eq hn hd h hbelow) hround a.place_eq

end Rounding

end Magnitude

end SimStudio
