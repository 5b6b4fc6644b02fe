import SimStudio.Proofs.Number.Digits
import SimStudio.Proofs.Number.Rounding

/-!
# Shortest Decimals Lead Back

The decimal that is written for a magnitude reads as that magnitude.

Two things have to be seen. A point of a grid that `Magnitude.gridPoint?` picks
is attracted by the magnitude: the comparisons it makes are the ends of the
interval, scaled to natural numbers. And there is a point on the grid of
seventeen digits at the latest, since that grid is finer than the unit, so that
`Magnitude.shortest` never runs out of grids.

Reading asks no more than that the decimal is attracted and lies within the
bounds beyond which nothing needs to be computed. All magnitudes lie within
them with room to spare.

## Main definitions

* `Decimal.value`: The number that a decimal is.

## Theorems

* `Magnitude.gridPoint?_attracts`: A point of a grid is attracted.
* `Magnitude.exists_gridPoint?`: Seventeen digits are enough.
* `Decimal.toMagnitude?_eq_some`: A decimal reads as what attracts it.
* `Magnitude.toMagnitude?_of_value`: A decimal with the value of the shortest one
  reads as the magnitude.
-/

namespace SimStudio

/-- The number that a decimal is. -/
def Decimal.value (d : Decimal) : ℚ := d.coefficient * 10 ^ d.exponent

theorem zpow_ten_of_nonneg {e : Int} (h : 0 ≤ e) : (10 : ℚ) ^ e = ((10 ^ e.toNat : Nat) : ℚ) := by
  rw [Nat.cast_pow, Nat.cast_ofNat, ← zpow_natCast, Int.toNat_of_nonneg h]

theorem zpow_ten_of_neg {e : Int} (h : e < 0) :
    (10 : ℚ) ^ e = ((10 ^ (-e).toNat : Nat) : ℚ)⁻¹ := by
  rw [Nat.cast_pow, Nat.cast_ofNat, ← zpow_natCast, Int.toNat_of_nonneg (by omega), zpow_neg,
    inv_inv]

/-- A power of ten as a quotient of two of which one is one. -/
theorem zpow_ten_eq (e : Int) :
    (10 : ℚ) ^ e = ((10 ^ e.toNat : Nat) : ℚ) / ((10 ^ (-e).toNat : Nat) : ℚ) := by
  by_cases h : 0 ≤ e
  · rw [zpow_ten_of_nonneg h, show (-e).toNat = 0 by omega, pow_zero, Nat.cast_one, div_one]
  · rw [zpow_ten_of_neg (not_le.mp h), show e.toNat = 0 by omega, pow_zero, Nat.cast_one, one_div]

namespace Magnitude

theorem unit_eq (a : Magnitude) :
    a.unit = ((2 ^ a.exponent.toNat : Nat) : ℚ) / (a.toRatio.2 : ℚ) := by
  rw [unit, toRatio]
  by_cases h : 0 ≤ a.exponent
  · rw [if_pos h, zpow_two_of_nonneg h, Nat.cast_one, div_one]
  · rw [if_neg h, zpow_two_of_neg (not_le.mp h), show a.exponent.toNat = 0 by omega, pow_zero,
      Nat.cast_one, one_div]

/-- The unit of a magnitude, scaled to a grid, is the quotient of the step and
    the denominator that grid points are computed with. -/
theorem unit_mul_zpow (a : Magnitude) (shift : Int) :
    a.unit * 10 ^ shift = ((2 ^ a.exponent.toNat * 10 ^ shift.toNat : Nat) : ℚ) /
      ((a.toRatio.2 * 10 ^ (-shift).toNat : Nat) : ℚ) := by
  rw [unit_eq, zpow_ten_eq, div_mul_div_comm, Nat.cast_mul, Nat.cast_mul]

/-- Of two neighbours only one that may be picked is picked. -/
theorem picked_cases {low nearer high : Bool} {x y d : Decimal}
    (h : (if low && (nearer || !high) then some x else if high then some y else none) = some d) :
    low = true ∧ d = x ∨ high = true ∧ d = y := by
  cases low <;> cases nearer <;> cases high <;> simp_all

theorem exists_picked {low nearer high : Bool} {x y : Decimal} (h : low = true ∨ high = true) :
    ∃ d, (if low && (nearer || !high) then some x else if high then some y else none) = some d := by
  cases low <;> cases nearer <;> cases high <;> simp_all

/-- A point of a grid that is picked is attracted. -/
theorem gridPoint?_attracts {tie : Tie} {a : Magnitude} {digits : Nat} {d : Decimal}
    (h : gridPoint? tie a digits = some d) : a.Attracts d.value := by
  simp only [gridPoint?] at h
  generalize hshift : ((digits : Int) - 1 - decimalOrder a.toRatio.1 a.toRatio.2) = shift at h
  have hunit := a.unit_mul_zpow shift
  have hdenpos : 0 < a.toRatio.2 * 10 ^ (-shift).toNat :=
    Nat.mul_pos a.toRatio_snd_pos (Nat.pow_pos (by decide))
  have hsteppos : 0 < 2 ^ a.exponent.toNat * 10 ^ shift.toNat :=
    Nat.mul_pos (Nat.pow_pos (by decide)) (Nat.pow_pos (by decide))
  generalize hstep : 2 ^ a.exponent.toNat * 10 ^ shift.toNat = step at h hunit hsteppos
  generalize hden : a.toRatio.2 * 10 ^ (-shift).toNat = den at h hunit hdenpos
  have hdivmod := Nat.div_add_mod (a.mantissa * step) den
  have hexcess := Nat.mod_lt (a.mantissa * step) hdenpos
  generalize a.mantissa * step / den = below at h hdivmod
  generalize a.mantissa * step % den = excess at h hdivmod hexcess
  have hscale : (0 : ℚ) < 10 ^ shift := zpow_pos (by norm_num) _
  have hden' : (0 : ℚ) < den := by exact_mod_cast hdenpos
  have hstep' : (0 : ℚ) < step := by exact_mod_cast hsteppos
  have hsum : (den : ℚ) * below + excess = a.mantissa * step := by exact_mod_cast hdivmod
  -- Comparing with a multiple of the unit is comparing with one of the step.
  have hlt : ∀ (n : Nat) (r : ℚ), r * a.unit < n * 10 ^ (-shift) ↔ r * step < n * den := by
    intro n r
    rw [zpow_neg, ← div_eq_mul_inv, lt_div_iff₀ hscale, mul_assoc, hunit, ← mul_div_assoc,
      div_lt_iff₀ hden']
  have heq : ∀ (n : Nat) (r : ℚ), r * a.unit = n * 10 ^ (-shift) ↔ r * step = n * den := by
    intro n r
    rw [zpow_neg, ← div_eq_mul_inv, eq_div_iff hscale.ne', mul_assoc, hunit, ← mul_div_assoc,
      div_eq_iff hden'.ne']
  have hgt : ∀ (n : Nat) (r : ℚ), n * 10 ^ (-shift) < r * a.unit ↔ n * den < r * step := by
    intro n r
    rw [zpow_neg, ← div_eq_mul_inv, div_lt_iff₀ hscale, mul_assoc, hunit, ← mul_div_assoc,
      lt_div_iff₀ hden']
  have hgap : ((if a.mantissa = 2 ^ 52 ∧ -1074 < a.exponent then step else 2 * step : Nat) : ℚ)
      = 4 * (a.reach * step) := by
    rw [reach]
    split
    · ring
    · push_cast
      ring
  have hreach : (0 : ℚ) < a.reach := by
    rw [reach]
    split <;> norm_num
  have hwithin : ∀ distance gap : Nat,
      (decide (4 * distance < gap) || decide (a.mantissa % 2 = 0) && 4 * distance == gap) = true →
        (4 * distance : ℚ) < gap ∨ (4 * distance : ℚ) = gap ∧ a.mantissa % 2 = 0 := by
    intro distance gap hw
    simp only [Bool.or_eq_true, Bool.and_eq_true, decide_eq_true_eq, beq_iff_eq] at hw
    rcases hw with hw | ⟨heven, hw⟩
    · exact .inl (by exact_mod_cast hw)
    · exact .inr ⟨by exact_mod_cast hw, heven⟩
  rcases picked_cases h with ⟨hpicked, rfl⟩ | ⟨hpicked, rfl⟩
  · -- The point below the value.
    have hlow := hwithin _ _ hpicked
    rw [hgap] at hlow
    refine ⟨?_, .inl ?_⟩
    · rw [Decimal.value, hlt below, heq below]
      rcases hlow with hl | ⟨hl, heven⟩
      · exact .inl (by nlinarith)
      · exact .inr ⟨by nlinarith, heven⟩
    · rw [Decimal.value, hgt below]
      have : (0 : ℚ) ≤ excess := by positivity
      nlinarith
  · -- The point above it.
    have hhigh := hwithin _ _ hpicked
    have hsub : ((den - excess : Nat) : ℚ) = den - excess := Nat.cast_sub hexcess.le
    have hexcess' : (excess : ℚ) < den := by exact_mod_cast hexcess
    rw [hsub] at hhigh
    push_cast at hhigh
    refine ⟨.inl ?_, ?_⟩
    · rw [Decimal.value, hlt (below + 1)]
      push_cast
      nlinarith
    · rw [Decimal.value, hgt (below + 1), eq_comm (a := ((below + 1 : Nat) : ℚ) * _),
        heq (below + 1)]
      push_cast
      rcases hhigh with hh | ⟨hh, heven⟩
      · exact .inl (by nlinarith)
      · exact .inr ⟨by nlinarith, heven⟩

theorem lt_pow_count (n : Nat) : n < 10 ^ Digits.count n :=
  (Nat.length_toDigits_le_iff (by omega) Nat.length_toDigits_pos).mp (Nat.le_refl _)

theorem pow_count_le {n : Nat} (hn : 0 < n) : 10 ^ (Digits.count n - 1) ≤ n := by
  by_cases hone : Digits.count n - 1 = 0
  · rw [hone, pow_zero]
    exact hn
  · by_contra hlt
    have hlen := (Nat.length_toDigits_le_iff (b := 10) (n := n) (by omega)
      (Nat.pos_of_ne_zero hone)).mpr (not_le.mp hlt)
    rw [Digits.count, Digits.text] at hlen hone
    omega

/-- The decimal order of a quotient does not exceed it. -/
theorem zpow_decimalOrder_le {num den : Nat} (hn : 0 < num) (hd : 0 < den) :
    (10 : ℚ) ^ decimalOrder num den ≤ (num : ℚ) / den := by
  have hd' : (0 : ℚ) < den := by exact_mod_cast hd
  rw [decimalOrder, le_div_iff₀ hd']
  split
  · rename_i hle
    have hq : 0 < num / den := Nat.div_pos hle hd
    have hcount := pow_count_le hq
    have hpos : 0 < Digits.count (num / den) := Nat.length_toDigits_pos
    have hmul : 10 ^ (Digits.count (num / den) - 1) * den ≤ num :=
      (Nat.mul_le_mul_right den hcount).trans (Nat.div_mul_le_self num den)
    rw [show ((Digits.count (num / den) : Int) - 1) = ((Digits.count (num / den) - 1 : Nat) : Int) by
      omega, zpow_natCast]
    exact_mod_cast hmul
  · have hcount := lt_pow_count ((den - 1) / num)
    have hlt : den - 1 < num * ((den - 1) / num + 1) := Nat.lt_mul_div_succ (den - 1) hn
    have hmul : num * ((den - 1) / num + 1) ≤ num * 10 ^ Digits.count ((den - 1) / num) :=
      Nat.mul_le_mul_left num hcount
    have hle : den ≤ num * 10 ^ Digits.count ((den - 1) / num) := by omega
    have hcast : (den : ℚ) ≤ num * 10 ^ Digits.count ((den - 1) / num) := by exact_mod_cast hle
    rw [zpow_neg, zpow_natCast, inv_mul_le_iff₀ (by positivity), mul_comm]
    exact hcast

/-- The grid of seventeen digits has a point in the interval. -/
theorem exists_gridPoint? (tie : Tie) {a : Magnitude} (ha : a.mantissa ≠ 0) :
    ∃ d, gridPoint? tie a 17 = some d := by
  have hvalue : 0 < a.toRatio.1 := by
    rw [toRatio]
    split
    · exact Nat.mul_pos (Nat.pos_of_ne_zero ha) (Nat.pow_pos (by decide))
    · exact Nat.pos_of_ne_zero ha
  have horder := zpow_decimalOrder_le hvalue a.toRatio_snd_pos
  rw [a.toRatio_eq] at horder
  have hmantissa := a.mantissa_lt
  simp only [gridPoint?]
  generalize hshift : (((17 : Nat) : Int) - 1 - decimalOrder a.toRatio.1 a.toRatio.2) = shift
  have hunit := a.unit_mul_zpow shift
  have hdenpos : 0 < a.toRatio.2 * 10 ^ (-shift).toNat :=
    Nat.mul_pos a.toRatio_snd_pos (Nat.pow_pos (by decide))
  generalize 2 ^ a.exponent.toNat * 10 ^ shift.toNat = step at hunit ⊢
  generalize a.toRatio.2 * 10 ^ (-shift).toNat = den at hunit hdenpos ⊢
  have hden' : (0 : ℚ) < den := by exact_mod_cast hdenpos
  -- On this grid a unit has more than one step, and more than two at `2 ^ 52`.
  have hfine : 10 ^ 16 * den ≤ a.mantissa * step := by
    have hscaled : (10 : ℚ) ^ 16 ≤ a.mantissa * (a.unit * 10 ^ shift) := by
      have hmul := mul_le_mul_of_nonneg_right horder (zpow_nonneg (by norm_num : (0 : ℚ) ≤ 10) shift)
      rw [← zpow_add₀ (by norm_num), ← hshift] at hmul
      rw [← hshift]
      rw [show decimalOrder a.toRatio.1 a.toRatio.2 + (((17 : Nat) : Int) - 1 -
        decimalOrder a.toRatio.1 a.toRatio.2) = ((16 : Nat) : Int) by omega, zpow_natCast] at hmul
      calc (10 : ℚ) ^ 16 ≤ _ := hmul
        _ = _ := by rw [value, mul_assoc]
    rw [hunit, ← mul_div_assoc, le_div_iff₀ hden'] at hscaled
    exact_mod_cast hscaled
  have hexcess := Nat.mod_lt (a.mantissa * step) hdenpos
  have hstep : den < step := by
    by_contra hle
    have hmul : a.mantissa * step ≤ a.mantissa * den := Nat.mul_le_mul_left _ (not_lt.mp hle)
    have hmul' : a.mantissa * den ≤ 2 ^ 53 * den := Nat.mul_le_mul_right _ hmantissa.le
    omega
  have hstep' : a.mantissa = 2 ^ 52 → 2 * den < step := by
    intro heq
    rw [heq] at hfine
    omega
  generalize a.mantissa * step % den = excess at hexcess ⊢
  refine exists_picked ?_
  -- What is left of a step above the value is either near enough or leaves the
  -- point below so near that it is.
  by_cases hnear : 4 * (den - excess) < 2 * step
  · refine .inr ?_
    rw [decide_eq_true hnear, Bool.true_or]
  · have hlow : 4 * excess < 2 * step := by omega
    have hne : ¬ (a.mantissa = 2 ^ 52 ∧ -1074 < a.exponent) := fun hc => by
      have := hstep' hc.1
      omega
    refine .inl ?_
    rw [if_neg hne, decide_eq_true hlow, Bool.true_or]

/-- What attracts a positive number is neither too large nor too small to be
    computed with. -/
theorem Attracts.bounds {a : Magnitude} {x : ℚ} (ha : a.mantissa ≠ 0) (h : a.Attracts x) :
    (10 : ℚ) ^ (-324 : Int) < x ∧ x < 10 ^ (309 : Int) := by
  have hunit := a.unit_pos
  have hmantissa : (1 : ℚ) ≤ a.mantissa := by exact_mod_cast Nat.pos_of_ne_zero ha
  have hbelow : (a.mantissa : ℚ) + 1 / 2 ≤ 2 ^ 53 := by
    have hcast : ((a.mantissa + 1 : Nat) : ℚ) ≤ ((2 ^ 53 : Nat) : ℚ) := by
      exact_mod_cast a.mantissa_lt
    push_cast at hcast
    linarith
  have hleast : (2 : ℚ) ^ (-1074 : Int) ≤ a.unit := zpow_le_zpow_right₀ (by norm_num) a.exponent_ge
  have hgreatest : a.unit ≤ (2 : ℚ) ^ (971 : Int) :=
    zpow_le_zpow_right₀ (by norm_num) a.exponent_le
  have hreach : a.reach ≤ 1 / 2 := by
    rw [reach]
    split <;> norm_num
  constructor
  · have hlow : (a.mantissa - a.reach) * a.unit ≤ x := h.low.elim le_of_lt fun he => he.1.le
    -- The least number is half of the smallest unit, and that is more than ten to the -324.
    have hhalf : 1 / 2 * (2 : ℚ) ^ (-1074 : Int) ≤ (a.mantissa - a.reach) * a.unit :=
      mul_le_mul (by linarith) hleast (by positivity) (by linarith)
    have hten : (10 : ℚ) ^ (-324 : Int) < 1 / 2 * 2 ^ (-1074 : Int) := by
      have hnat : 2 ^ 1075 < 10 ^ 324 := by decide +kernel
      have hcast : ((2 ^ 1075 : Nat) : ℚ) < ((10 ^ 324 : Nat) : ℚ) := Nat.cast_lt.mpr hnat
      rw [Nat.cast_pow, Nat.cast_pow, Nat.cast_ofNat, Nat.cast_ofNat, pow_succ] at hcast
      rw [zpow_neg, zpow_neg, zpow_ofNat, zpow_ofNat, one_div, ← mul_inv, mul_comm (2 : ℚ)]
      exact inv_strictAnti₀ (by positivity) hcast
    exact hten.trans_le (hhalf.trans hlow)
  · have hhigh : x ≤ (a.mantissa + 1 / 2) * a.unit := h.high.elim le_of_lt fun he => he.1.le
    -- The greatest is at most 2 ^ 53 of the largest unit, and that is less than ten to the 309.
    have hmost : (a.mantissa + 1 / 2) * a.unit ≤ 2 ^ 53 * (2 : ℚ) ^ (971 : Int) :=
      mul_le_mul hbelow hgreatest hunit.le (by positivity)
    have hten : 2 ^ 53 * (2 : ℚ) ^ (971 : Int) < 10 ^ (309 : Int) := by
      have hnat : 2 ^ 53 * 2 ^ 971 < 10 ^ 309 := by decide +kernel
      have hcast : ((2 ^ 53 * 2 ^ 971 : Nat) : ℚ) < ((10 ^ 309 : Nat) : ℚ) := Nat.cast_lt.mpr hnat
      rw [Nat.cast_mul, Nat.cast_pow, Nat.cast_pow, Nat.cast_pow, Nat.cast_ofNat,
        Nat.cast_ofNat] at hcast
      rw [zpow_ofNat, zpow_ofNat]
      exact hcast
    exact (hhigh.trans hmost).trans_lt hten

end Magnitude

/-- A decimal reads as the magnitude that attracts it. -/
theorem Decimal.toMagnitude?_eq_some {a : Magnitude} {d : Decimal} (ha : a.mantissa ≠ 0)
    (h : a.Attracts d.value) : d.toMagnitude? = some a := by
  have hbounds := h.bounds ha
  have hpositive : 0 < d.value := (zpow_pos (by norm_num) _).trans hbounds.1
  have hcoefficient : d.coefficient ≠ 0 := by
    intro hzero
    rw [value, hzero, Nat.cast_zero, zero_mul] at hpositive
    exact lt_irrefl _ hpositive
  have hpos := Nat.pos_of_ne_zero hcoefficient
  have hcount : 0 < Digits.count d.coefficient := Nat.length_toDigits_pos
  have hscale : (0 : ℚ) < 10 ^ d.exponent := zpow_pos (by norm_num) _
  -- The order of the decimal lies within the bounds.
  have hbelow : (10 : ℚ) ^ (Digits.count d.coefficient - 1 + d.exponent : Int) ≤ d.value := by
    have hcast : ((10 ^ (Digits.count d.coefficient - 1) : Nat) : ℚ) ≤ d.coefficient := by
      exact_mod_cast Magnitude.pow_count_le hpos
    have hshift : (Digits.count d.coefficient - 1 + d.exponent : Int) =
        ((Digits.count d.coefficient - 1 : Nat) : Int) + d.exponent := by omega
    rw [hshift, zpow_add₀ (by norm_num), zpow_natCast, value]
    push_cast at hcast
    exact mul_le_mul_of_nonneg_right hcast hscale.le
  have habove : d.value < (10 : ℚ) ^ (Digits.count d.coefficient + d.exponent : Int) := by
    have hcast : (d.coefficient : ℚ) < ((10 ^ Digits.count d.coefficient : Nat) : ℚ) := by
      exact_mod_cast Magnitude.lt_pow_count d.coefficient
    rw [zpow_add₀ (by norm_num), zpow_natCast, value]
    push_cast at hcast
    exact mul_lt_mul_of_pos_right hcast hscale
  have hmost := (zpow_lt_zpow_iff_right₀ (by norm_num)).mp (hbelow.trans_lt hbounds.2)
  have hleast := (zpow_lt_zpow_iff_right₀ (by norm_num)).mp (hbounds.1.trans habove)
  simp only [toMagnitude?]
  rw [if_neg hcoefficient, if_neg (by omega), if_neg (by omega)]
  by_cases he : 0 ≤ d.exponent
  · rw [if_pos he]
    refine Magnitude.ofRatio?_eq_some (Nat.mul_pos hpos (Nat.pow_pos (by decide))) Nat.one_pos ?_
    rw [Nat.cast_mul, Nat.cast_one, div_one, ← zpow_ten_of_nonneg he]
    exact h
  · rw [if_neg he]
    refine Magnitude.ofRatio?_eq_some hpos (Nat.pow_pos (by decide)) ?_
    rw [div_eq_mul_inv, ← zpow_ten_of_neg (not_le.mp he)]
    exact h

/-- Zeros at the end of a coefficient may be counted in the exponent. -/
theorem Decimal.value_trimZeros (coefficient : Nat) (exponent : Int) :
    (trimZeros coefficient exponent).value = Decimal.value ⟨coefficient, exponent⟩ := by
  fun_induction trimZeros coefficient exponent with
  | case1 coefficient exponent h ih =>
      have hten : coefficient = coefficient / 10 * 10 := by omega
      have hcast : (coefficient : ℚ) = (coefficient / 10 : Nat) * 10 := by exact_mod_cast hten
      rw [ih, value, value, zpow_add₀ (by norm_num), zpow_one, hcast]
      ring
  | case2 => rfl

namespace Magnitude

/-- The shortest decimal of a magnitude is attracted. -/
theorem attracts_shortest (tie : Tie) {a : Magnitude} (ha : a.mantissa ≠ 0) :
    a.Attracts (a.shortest tie).value := by
  have hzero : ¬ a.isZero = true := fun h => ha ((isZero_iff a).mp h)
  rw [shortest, if_neg hzero]
  obtain ⟨last, hlast⟩ := exists_gridPoint? tie ha
  cases hfound : (List.range' 1 17).findSome? (gridPoint? tie a) with
  | none =>
      have hnone := List.findSome?_eq_none_iff.mp hfound 17 (by decide)
      rw [hlast] at hnone
      cases hnone
  | some d =>
      obtain ⟨digits, -, hdigits⟩ := List.exists_of_findSome?_eq_some hfound
      rw [Decimal.value_trimZeros]
      exact gridPoint?_attracts hdigits

/-- A decimal with the value of the shortest one reads as the magnitude. -/
theorem toMagnitude?_of_value {tie : Tie} {a : Magnitude} {d : Decimal}
    (h : d.value = (a.shortest tie).value) : d.toMagnitude? = some a := by
  by_cases hzero : a.isZero = true
  · have hplace : a.place = 0 := by
      rw [isZero, beq_iff_eq] at hzero
      exact hzero
    have hpower : (10 : ℚ) ^ d.exponent ≠ 0 := zpow_ne_zero _ (by norm_num)
    rw [shortest, if_pos hzero, Decimal.value, Decimal.value, Nat.cast_zero, zero_mul,
      mul_eq_zero] at h
    have hcoefficient : d.coefficient = 0 := by exact_mod_cast h.resolve_right hpower
    rw [Decimal.toMagnitude?, if_pos hcoefficient]
    exact congrArg some (Magnitude.ext hplace.symm)
  · have hmantissa : a.mantissa ≠ 0 := fun h => hzero ((isZero_iff a).mpr h)
    exact Decimal.toMagnitude?_eq_some hmantissa (h ▸ attracts_shortest tie hmantissa)

end Magnitude

end SimStudio
