/-
FrameLisp/Proofs/Number/Rounding.lean

Rounding to a binary pattern, as a function of the value alone.

The library rounds fractions of whole numbers.  Here the same is said of rational
numbers: `nearestTo v` rounds `v / 2 ^ e` to a whole number, a tie to the even one,
where `2 ^ e` is the spacing of the magnitudes around `v`, and

    nearest num den  =  nearestTo (num / den).

What a fraction rounds to therefore depends on its value only, not on how it is
written.  A magnitude rounds to its own pattern (`nearestTo_ofPattern`), and the
pattern of a decimal is what its value rounds to (`Decimal.pattern_eq`): the two
exponents beyond which the power of ten is not computed do not change the answer.
-/
import FrameLisp.Number.Decimal
import Mathlib.Algebra.Order.Field.Power
import Mathlib.Algebra.Order.Floor.Semifield
import Mathlib.Data.Int.Log
import Mathlib.Data.Rat.Floor
import Mathlib.Tactic.FieldSimp
import Mathlib.Tactic.GCongr
import Mathlib.Tactic.Linarith
import Mathlib.Tactic.Positivity
import Mathlib.Tactic.Ring

namespace FrameLisp.Number

/-! ### Rounding rational numbers -/

/-- The whole number nearest to a rational number from zero on, a tie to the even one. -/
def roundEven (v : ℚ) : ℕ :=
  if v - ⌊v⌋₊ < 1 / 2 ∨ v - ⌊v⌋₊ = 1 / 2 ∧ ⌊v⌋₊ % 2 = 0 then ⌊v⌋₊ else ⌊v⌋₊ + 1

/-- The exponent of the spacing of the magnitudes around a positive number. -/
def spacing (v : ℚ) : ℤ := max (-1074) (Int.log 2 v - 52)

/-- The pattern of the magnitude nearest to a number, infinity above the largest. -/
def nearestTo (v : ℚ) : ℕ :=
  if v = 0 then 0
  else min infinityPattern ((spacing v + 1074).toNat * 2 ^ 52 + roundEven (v / 2 ^ spacing v))

theorem roundEven_natCast (n : ℕ) : roundEven n = n := by
  have h : (n : ℚ) - ⌊(n : ℚ)⌋₊ < 1 / 2 := by
    rw [Nat.floor_natCast, sub_self]
    norm_num
  rw [roundEven, if_pos (.inl h), Nat.floor_natCast]

theorem roundEven_eq_zero {v : ℚ} (h : v < 1 / 2) : roundEven v = 0 := by
  have hfloor : ⌊v⌋₊ = 0 := Nat.floor_eq_zero.mpr (by linarith)
  rw [roundEven, hfloor, if_pos]
  left
  simpa using h

theorem log_eq {v : ℚ} {k : ℤ} (hle : (2 : ℚ) ^ k ≤ v) (hlt : v < (2 : ℚ) ^ (k + 1)) :
    Int.log 2 v = k := by
  have hv : 0 < v := (zpow_pos (by norm_num) k).trans_le hle
  have h₁ : k ≤ Int.log 2 v := (Int.zpow_le_iff_le_log (by norm_num) hv).mp (by exact_mod_cast hle)
  have h₂ : Int.log 2 v < k + 1 :=
    (Int.lt_zpow_iff_log_lt (by norm_num) hv).mp (by exact_mod_cast hlt)
  omega

/-! ### Fractions of whole numbers -/

/-- The value of a fraction. -/
def fraction (r : ℕ × ℕ) : ℚ := (r.1 : ℚ) / r.2

theorem fraction_scale (base num den : ℕ) (hbase : 0 < base) (e : ℤ) :
    fraction (scale base num den e) = fraction (num, den) / (base : ℚ) ^ e := by
  have hpow : (base : ℚ) ≠ 0 := by positivity
  unfold fraction scale
  split
  · next he =>
      obtain ⟨n, rfl⟩ := Int.eq_ofNat_of_zero_le he
      simp [div_div]
  · next he =>
      obtain ⟨n, rfl⟩ : ∃ n : ℕ, e = -(n : ℤ) := ⟨(-e).toNat, by omega⟩
      simp [div_mul_eq_mul_div]

theorem scale_den_pos {base den : ℕ} (hbase : 0 < base) (hden : 0 < den) (num : ℕ) (e : ℤ) :
    0 < (scale base num den e).2 := by
  simp only [scale, Nat.pow_eq]
  split
  · positivity
  · exact hden

theorem roundDiv_eq (num : ℕ) {den : ℕ} (hden : 0 < den) :
    roundDiv num den = roundEven (fraction (num, den)) := by
  have hpos : (0 : ℚ) < den := by exact_mod_cast hden
  have hfloor : ⌊fraction (num, den)⌋₊ = num / den := Nat.floor_div_eq_div num den
  have hrest : fraction (num, den) - ((num / den : ℕ) : ℚ) = ((num % den : ℕ) : ℚ) / den := by
    have hsplit : (num : ℚ) = den * ((num / den : ℕ) : ℚ) + ((num % den : ℕ) : ℚ) := by
      exact_mod_cast (Nat.div_add_mod num den).symm
    rw [fraction, eq_div_iff hpos.ne', sub_mul, div_mul_cancel₀ _ hpos.ne']
    linarith
  have hlt : ((num % den : ℕ) : ℚ) / den < 1 / 2 ↔ 2 * (num % den) < den := by
    rw [div_lt_div_iff₀ hpos (by norm_num), one_mul, mul_comm]
    exact_mod_cast Iff.rfl
  have heq : ((num % den : ℕ) : ℚ) / den = 1 / 2 ↔ 2 * (num % den) = den := by
    rw [div_eq_div_iff hpos.ne' (by norm_num), one_mul, mul_comm]
    exact_mod_cast Iff.rfl
  simp only [roundDiv, roundEven, hfloor, hrest, hlt, heq]

theorem fraction_pos {num den : ℕ} (hnum : 0 < num) (hden : 0 < den) :
    0 < fraction (num, den) := by
  unfold fraction
  positivity

/-- The difference of the two lengths is the exponent of a fraction or one more. -/
theorem fraction_bounds {num den : ℕ} (hnum : 0 < num) (hden : 0 < den) {l : ℤ}
    (hl : l = (num.log2 : ℤ) - (den.log2 : ℤ)) :
    (2 : ℚ) ^ (l - 1) ≤ fraction (num, den) ∧ fraction (num, den) < (2 : ℚ) ^ (l + 1) := by
  have hdenQ : (0 : ℚ) < den := by exact_mod_cast hden
  have hnum₁ : (2 : ℚ) ^ num.log2 ≤ num := by exact_mod_cast Nat.log2_self_le hnum.ne'
  have hnum₂ : (num : ℚ) < 2 ^ (num.log2 + 1) := by exact_mod_cast Nat.lt_log2_self
  have hden₁ : (2 : ℚ) ^ den.log2 ≤ den := by exact_mod_cast Nat.log2_self_le hden.ne'
  have hden₂ : (den : ℚ) < 2 ^ (den.log2 + 1) := by exact_mod_cast Nat.lt_log2_self
  constructor
  · rw [fraction, le_div_iff₀ hdenQ]
    calc (2 : ℚ) ^ (l - 1) * den ≤ 2 ^ (l - 1) * 2 ^ (den.log2 + 1) := by gcongr
      _ = 2 ^ num.log2 := by
          rw [← zpow_natCast, ← zpow_add₀ (by norm_num), ← zpow_natCast]
          congr 1
          push_cast
          omega
      _ ≤ num := hnum₁
  · rw [fraction, div_lt_iff₀ hdenQ]
    calc (num : ℚ) < 2 ^ (num.log2 + 1) := hnum₂
      _ = 2 ^ (l + 1) * 2 ^ den.log2 := by
          rw [← zpow_natCast, ← zpow_natCast, ← zpow_add₀ (by norm_num)]
          congr 1
          push_cast
          omega
      _ ≤ 2 ^ (l + 1) * den := by gcongr

theorem scale_le_iff (num : ℕ) {den : ℕ} (hden : 0 < den) (l : ℤ) :
    (scale 2 num den l).2 ≤ (scale 2 num den l).1 ↔ (2 : ℚ) ^ l ≤ fraction (num, den) := by
  have hpos : (0 : ℚ) < (scale 2 num den l).2 := by
    exact_mod_cast scale_den_pos (by norm_num) hden num l
  have hscale : fraction (scale 2 num den l) = fraction (num, den) / (2 : ℚ) ^ l := by
    exact_mod_cast fraction_scale 2 num den (by norm_num) l
  have hone : (2 : ℚ) ^ l ≤ fraction (num, den) ↔ 1 ≤ fraction (num, den) / (2 : ℚ) ^ l :=
    (one_le_div (by positivity)).symm
  rw [← Nat.cast_le (α := ℚ), ← one_le_div hpos, hone, ← hscale]
  rfl

theorem floorLog2_eq {num den : ℕ} (hnum : 0 < num) (hden : 0 < den) :
    floorLog2 num den = Int.log 2 (fraction (num, den)) := by
  obtain ⟨hlow, hhigh⟩ := fraction_bounds hnum hden rfl
  unfold floorLog2
  simp only [scale_le_iff num hden]
  split
  · next h => exact (log_eq h hhigh).symm
  · next h =>
      refine (log_eq hlow ?_).symm
      rw [sub_add_cancel]
      exact not_le.mp h

/-- What a fraction rounds to is what its value rounds to. -/
theorem nearest_eq (num : ℕ) {den : ℕ} (hden : 0 < den) :
    nearest num den = nearestTo (fraction (num, den)) := by
  unfold nearest nearestTo
  split
  · next h => rw [if_pos (by simp [fraction, h])]
  · next h =>
      have hnum : 0 < num := Nat.pos_of_ne_zero h
      rw [if_neg (fraction_pos hnum hden).ne', floorLog2_eq hnum hden]
      have hround : ∀ e : ℤ, roundDiv (scale 2 num den e).1 (scale 2 num den e).2 =
          roundEven (fraction (num, den) / 2 ^ e) := by
        intro e
        rw [roundDiv_eq _ (scale_den_pos (by norm_num) hden num e)]
        exact congrArg roundEven (fraction_scale 2 num den (by norm_num) e)
      simp only [hround]
      rfl

/-! ### Magnitudes round to themselves -/

/-- The value of a magnitude. -/
def Dyadic.value (d : Dyadic) : ℚ := d.significand * (2 : ℚ) ^ d.exponent

theorem spacing_of_lt {v : ℚ} (hv : 0 < v) (h : v < (2 : ℚ) ^ (-1022 : ℤ)) :
    spacing v = -1074 := by
  have hlog : Int.log 2 v < -1022 :=
    (Int.lt_zpow_iff_log_lt (by norm_num) hv).mp (by exact_mod_cast h)
  unfold spacing
  omega

theorem spacing_eq {v : ℚ} {e : ℤ} (he : -1074 ≤ e) (hle : (2 : ℚ) ^ (e + 52) ≤ v)
    (hlt : v < (2 : ℚ) ^ (e + 53)) : spacing v = e := by
  have hlog : Int.log 2 v = e + 52 := log_eq hle (by rwa [add_assoc])
  unfold spacing
  omega

/-- A whole multiple of its own spacing is not rounded. -/
theorem nearestTo_of_spacing {s : ℕ} {e : ℤ} (hs : 0 < s)
    (he : spacing (s * (2 : ℚ) ^ e) = e) :
    nearestTo (s * (2 : ℚ) ^ e) = min infinityPattern ((e + 1074).toNat * 2 ^ 52 + s) := by
  have hne : (s : ℚ) * 2 ^ e ≠ 0 := by positivity
  rw [nearestTo, if_neg hne, he, mul_div_cancel_right₀ _ (by positivity), roundEven_natCast]

theorem nearestTo_ofPattern {b : ℕ} (hb : b < infinityPattern) :
    nearestTo (Dyadic.ofPattern b).value = b := by
  simp only [Dyadic.ofPattern, Dyadic.value, Nat.pow_eq]
  split
  · next hsub =>
      -- below `2 ^ 52` a pattern counts multiples of the least spacing
      obtain rfl | hpos := Nat.eq_zero_or_pos b
      · simp [nearestTo]
      · have hlt : (b : ℚ) * 2 ^ (-1074 : ℤ) < 2 ^ (-1022 : ℤ) := by
          have hbQ : (b : ℚ) < 2 ^ (52 : ℤ) := by exact_mod_cast hsub
          calc (b : ℚ) * 2 ^ (-1074 : ℤ) < 2 ^ (52 : ℤ) * 2 ^ (-1074 : ℤ) := by gcongr
            _ = 2 ^ (-1022 : ℤ) := (zpow_add₀ (by norm_num) _ _).symm
        have hspacing := spacing_of_lt (by positivity) hlt
        rw [nearestTo_of_spacing hpos hspacing]
        simp only [infinityPattern, Nat.pow_eq] at hb ⊢
        omega
  · next hnormal =>
      -- the significand fills its 53 bits, so the exponent is the spacing
      obtain ⟨s, hs⟩ : ∃ s, s = 2 ^ 52 + b % 2 ^ 52 := ⟨_, rfl⟩
      obtain ⟨e, he⟩ : ∃ e : ℤ, e = ((b / 2 ^ 52 : ℕ) : ℤ) - 1075 := ⟨_, rfl⟩
      have hs₁ : ((2 : ℚ) ^ 52) ≤ s := by exact_mod_cast (by omega : 2 ^ 52 ≤ s)
      have hs₂ : (s : ℚ) < 2 ^ 53 := by exact_mod_cast (by omega : s < 2 ^ 53)
      have hspacing : spacing (s * (2 : ℚ) ^ e) = e := by
        apply spacing_eq
        · omega
        · rw [add_comm, zpow_add₀ (by norm_num)]
          gcongr
          exact_mod_cast hs₁
        · rw [add_comm, zpow_add₀ (by norm_num)]
          gcongr
          exact_mod_cast hs₂
      rw [← hs, ← he, nearestTo_of_spacing (by omega) hspacing]
      simp only [infinityPattern, Nat.pow_eq] at hb ⊢
      omega

/-! ### Decimals round by their value -/

/-- The value of a decimal. -/
def Decimal.value (d : Decimal) : ℚ := d.coefficient * (10 : ℚ) ^ d.exponent

/-- A whole number times a power, as a fraction. -/
theorem fraction_power (n base : ℕ) (e : ℤ) :
    fraction (if 0 ≤ e then (n * base ^ e.toNat, 1) else (n, base ^ (-e).toNat)) =
      n * (base : ℚ) ^ e := by
  split
  · next he =>
      obtain ⟨k, rfl⟩ := Int.eq_ofNat_of_zero_le he
      simp [fraction]
  · next he =>
      obtain ⟨k, rfl⟩ : ∃ k : ℕ, e = -(k : ℤ) := ⟨(-e).toNat, by omega⟩
      simp [fraction, div_eq_mul_inv]

theorem Dyadic.fraction_ratio (d : Dyadic) : fraction d.ratio = d.value := by
  exact_mod_cast fraction_power d.significand 2 d.exponent

theorem Decimal.fraction_ratio (d : Decimal) : fraction d.ratio = d.value := by
  exact_mod_cast fraction_power d.coefficient 10 d.exponent

theorem den_power_pos (n : ℕ) {base : ℕ} (hbase : 0 < base) (e : ℤ) :
    0 < (if 0 ≤ e then (n * base ^ e.toNat, 1) else (n, base ^ (-e).toNat)).2 := by
  split
  · exact Nat.one_pos
  · positivity

theorem Dyadic.ratio_den_pos (d : Dyadic) : 0 < d.ratio.2 :=
  den_power_pos d.significand (by norm_num) d.exponent

theorem Decimal.ratio_den_pos (d : Decimal) : 0 < d.ratio.2 :=
  den_power_pos d.coefficient (by norm_num) d.exponent

theorem nearestTo_of_large {v : ℚ} (h : (2 : ℚ) ^ (1025 : ℤ) ≤ v) :
    nearestTo v = infinityPattern := by
  have hv : 0 < v := (zpow_pos (by norm_num) _).trans_le h
  have hlog : 1025 ≤ Int.log 2 v :=
    (Int.zpow_le_iff_le_log (by norm_num) hv).mp (by exact_mod_cast h)
  have hspacing : 973 ≤ spacing v := by
    unfold spacing
    omega
  rw [nearestTo, if_neg hv.ne', infinityPattern, Nat.pow_eq]
  omega

theorem nearestTo_of_small {v : ℚ} (hv : 0 < v) (h : v < (2 : ℚ) ^ (-1076 : ℤ)) :
    nearestTo v = 0 := by
  have hle : (2 : ℚ) ^ (-1076 : ℤ) ≤ 2 ^ (-1022 : ℤ) :=
    zpow_le_zpow_right₀ (by norm_num) (by norm_num)
  -- less than half of the least spacing
  have hround : roundEven (v / 2 ^ (-1074 : ℤ)) = 0 := by
    apply roundEven_eq_zero
    rw [div_lt_iff₀ (by positivity)]
    calc v < 2 ^ (-1076 : ℤ) := h
      _ ≤ 2 ^ (-1075 : ℤ) := zpow_le_zpow_right₀ (by norm_num) (by norm_num)
      _ = 2 ^ (-1 : ℤ) * 2 ^ (-1074 : ℤ) := zpow_add₀ two_ne_zero (-1) (-1074)
      _ = 1 / 2 * 2 ^ (-1074 : ℤ) := by rw [zpow_neg_one, one_div]
  rw [nearestTo, if_neg hv.ne', spacing_of_lt hv (h.trans_le hle), hround]
  simp

theorem two_zpow_le (n : ℕ) : (2 : ℚ) ^ (3 * n : ℤ) ≤ 10 ^ (n : ℤ) := by
  rw [zpow_mul, zpow_natCast, zpow_natCast]
  exact pow_le_pow_left₀ (by norm_num) (by norm_num) n

theorem ten_zpow_le : (10 : ℚ) ^ (-400 : ℤ) ≤ 2 ^ (-1076 : ℤ) := by
  calc (10 : ℚ) ^ (-400 : ℤ) ≤ 2 ^ (-(3 * (400 : ℕ)) : ℤ) := by
        rw [zpow_neg, zpow_neg]
        exact inv_anti₀ (by positivity) (two_zpow_le 400)
    _ ≤ 2 ^ (-1076 : ℤ) := zpow_le_zpow_right₀ (by norm_num) (by norm_num)

theorem Decimal.value_large {d : Decimal} (hd : d.coefficient ≠ 0) (he : 400 < d.exponent) :
    (2 : ℚ) ^ (1025 : ℤ) ≤ d.value := by
  have hc : (1 : ℚ) ≤ d.coefficient := by exact_mod_cast Nat.one_le_iff_ne_zero.mpr hd
  calc (2 : ℚ) ^ (1025 : ℤ) ≤ 2 ^ (3 * (401 : ℕ) : ℤ) :=
        zpow_le_zpow_right₀ (by norm_num) (by norm_num)
    _ ≤ 10 ^ ((401 : ℕ) : ℤ) := two_zpow_le 401
    _ ≤ 10 ^ d.exponent := zpow_le_zpow_right₀ (by norm_num) he
    _ ≤ d.coefficient * 10 ^ d.exponent := le_mul_of_one_le_left (by positivity) hc

theorem Decimal.value_small {d : Decimal}
    (he : d.exponent < -((d.coefficient.log2 : ℤ) + 400)) : d.value < (2 : ℚ) ^ (-1076 : ℤ) := by
  have hc : (d.coefficient : ℚ) < 2 ^ (d.coefficient.log2 + 1) := by exact_mod_cast Nat.lt_log2_self
  calc d.coefficient * (10 : ℚ) ^ d.exponent
      < 2 ^ (d.coefficient.log2 + 1) * 10 ^ d.exponent := by gcongr
    _ ≤ 10 ^ (d.coefficient.log2 + 1) * 10 ^ (-((d.coefficient.log2 : ℤ) + 401)) := by
        gcongr
        · norm_num
        · norm_num
        · omega
    _ = 10 ^ (-400 : ℤ) := by
        rw [← zpow_natCast, ← zpow_add₀ (by norm_num)]
        congr 1
        push_cast
        omega
    _ ≤ 2 ^ (-1076 : ℤ) := ten_zpow_le

/-- The pattern of a decimal is what its value rounds to. -/
theorem Decimal.pattern_eq (d : Decimal) : d.pattern = nearestTo d.value := by
  unfold pattern
  split
  · next hzero => simp [nearestTo, value, hzero]
  · next hne =>
      split
      · next hlarge => rw [nearestTo_of_large (value_large hne hlarge)]
      · split
        · next hsmall =>
            have hpos : 0 < d.value := by
              have hc : 0 < d.coefficient := Nat.pos_of_ne_zero hne
              unfold value
              positivity
            rw [nearestTo_of_small hpos (value_small hsmall)]
        · rw [nearest_eq _ d.ratio_den_pos, Prod.mk.eta, fraction_ratio]

end FrameLisp.Number
