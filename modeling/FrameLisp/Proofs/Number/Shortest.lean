/-
FrameLisp/Proofs/Number/Shortest.lean

The shortest decimal reads back.

Every hit of the search reads back, because that is what the search asks of it.  What
has to be shown is that the search cannot run through all its grids for nothing: the
magnitude `v` lies itself on the last one.  Its value is a whole number times a power
of two, `s * 2 ^ (-m)` say, which is `s * 5 ^ m` times `10 ^ (-m)`; and the grid
`767` places below the leading one is at least that fine, since

    10 ^ (k - 1)  ≤  v  <  2 ^ 53 * 5 ^ m * 10 ^ (-m)  ≤  10 ^ (767 - m).

Taking the zeros off the end of the decimal changes nothing in its value, and so, by
rounding, nothing in its pattern (`pattern_shortest`).
-/
import FrameLisp.Number.Shortest
import FrameLisp.Proofs.Number.Digits
import FrameLisp.Proofs.Number.Rounding
import Mathlib.Data.Nat.Cast.Order.Field

namespace FrameLisp.Number

/-! ### Grids -/

/-- The number is a whole multiple of `10 ^ p`. -/
def OnGrid (v : ℚ) (p : ℤ) : Prop := ∃ m : ℕ, v = m * (10 : ℚ) ^ p

theorem OnGrid.mono {v : ℚ} {p q : ℤ} (h : OnGrid v p) (hle : q ≤ p) : OnGrid v q := by
  obtain ⟨m, rfl⟩ := h
  obtain ⟨n, hn⟩ := Int.eq_ofNat_of_zero_le (sub_nonneg.mpr hle)
  refine ⟨m * 10 ^ n, ?_⟩
  push_cast
  rw [mul_assoc, ← zpow_natCast, ← zpow_add₀ (by norm_num), ← hn, sub_add_cancel]

theorem div_scale (num den : ℕ) (p : ℤ) :
    (scale 10 num den p).1 / (scale 10 num den p).2 = ⌊fraction (num, den) / (10 : ℚ) ^ p⌋₊ := by
  have hscale : fraction (scale 10 num den p) = fraction (num, den) / (10 : ℚ) ^ p := by
    exact_mod_cast fraction_scale 10 num den (by norm_num) p
  rw [← hscale]
  exact (Nat.floor_div_eq_div _ _).symm

/-- On a grid a number is its own lower neighbour. -/
theorem OnGrid.low_value {num den : ℕ} {p : ℤ} (h : OnGrid (fraction (num, den)) p) :
    Decimal.value ⟨(scale 10 num den p).1 / (scale 10 num den p).2, p⟩ = fraction (num, den) := by
  obtain ⟨m, hm⟩ := h
  rw [Decimal.value, div_scale, hm, mul_div_cancel_right₀ _ (by positivity), Nat.floor_natCast]

/-! ### The search -/

theorem roundDiv_cases (num den : ℕ) :
    roundDiv num den = num / den ∨ roundDiv num den = num / den + 1 := by
  simp only [roundDiv]
  split
  · exact .inl rfl
  · exact .inr rfl

theorem pattern_neighbour? {b num den : ℕ} {p : ℤ} {d : Decimal}
    (h : neighbour? b num den p = some d) : d.pattern = b := by
  simp only [neighbour?] at h
  split at h
  · next hlow =>
      split at h
      · next hhigh =>
          cases h
          obtain hround | hround := roundDiv_cases (scale 10 num den p).1 (scale 10 num den p).2
          · rw [hround]
            exact hlow
          · rw [hround]
            exact hhigh
      · cases h
        exact hlow
  · split at h
    · next hhigh =>
        cases h
        exact hhigh
    · cases h

/-- The search finds a decimal that reads back if the number lies on its last grid. -/
theorem pattern_searchGrids {b num den : ℕ} (hb : nearestTo (fraction (num, den)) = b)
    {n : ℕ} {p : ℤ} (hgrid : OnGrid (fraction (num, den)) (p - n)) :
    (searchGrids b num den n p).pattern = b := by
  induction n generalizing p with
  | zero =>
      -- the last grid is not tested, but the number lies on it
      have hp : OnGrid (fraction (num, den)) p := by simpa using hgrid
      rw [searchGrids, Decimal.pattern_eq, hp.low_value, hb]
  | succ n ih =>
      rw [searchGrids]
      split
      · next d hd => exact pattern_neighbour? hd
      · apply ih
        rwa [sub_sub, add_comm, ← Nat.cast_succ]

theorem value_normalize (d : Decimal) : d.normalize.value = d.value := by
  fun_induction Decimal.normalize d with
  | case1 d h ih =>
      have hten : d.coefficient = d.coefficient / 10 * 10 := by omega
      rw [ih, Decimal.value, Decimal.value, zpow_add_one₀ (by norm_num)]
      conv_rhs => rw [hten]
      push_cast
      ring
  | case2 d h => rfl

/-! ### The leading place -/

/-- The digits of a fraction, counted after scaling it up to one or more. -/
theorem zpow_digitCount_le {num den t : ℕ} {k : ℤ} (hden : 0 < den) (ht : (t : ℚ) = 10 ^ k)
    (hv : (10 : ℚ) ^ (-k) ≤ fraction (num, den)) :
    (10 : ℚ) ^ ((digitCount (num * t / den) : ℤ) - k - 1) ≤ fraction (num, den) := by
  have hdenQ : (0 : ℚ) < den := by exact_mod_cast hden
  have hscaled : ((num * t : ℕ) : ℚ) / den = fraction (num, den) * 10 ^ k := by
    rw [fraction, Nat.cast_mul, mul_div_right_comm, ht]
  -- scaled up the fraction is at least one, so its whole part has a leading digit
  generalize hn : num * t / den = n
  have hpos : 0 < n := by
    rw [← hn]
    refine Nat.div_pos ?_ hden
    have hone : (1 : ℚ) ≤ ((num * t : ℕ) : ℚ) / den := by
      rw [hscaled]
      calc (1 : ℚ) = 10 ^ (-k) * 10 ^ k := by
            rw [← zpow_add₀ (by norm_num), neg_add_cancel, zpow_zero]
        _ ≤ fraction (num, den) * 10 ^ k := by gcongr
    exact_mod_cast (one_le_div hdenQ).mp hone
  have hcount : (10 : ℚ) ^ ((digitCount n : ℤ) - 1) ≤ n := by
    rw [← Nat.cast_one, ← Nat.cast_sub (one_le_digitCount n), zpow_natCast]
    exact_mod_cast pow_digitCount_le hpos
  have hdiv : (n : ℚ) ≤ fraction (num, den) * 10 ^ k := by
    rw [← hscaled, ← hn]
    exact Nat.cast_div_le
  rw [sub_right_comm, zpow_sub₀ (by norm_num), div_le_iff₀ (by positivity)]
  exact hcount.trans hdiv

theorem zpow_leadingPlace_le {num den : ℕ} (hden : 0 < den)
    (hv : (10 : ℚ) ^ (-400 : ℤ) ≤ fraction (num, den)) :
    (10 : ℚ) ^ (leadingPlace num den - 1) ≤ fraction (num, den) := by
  unfold leadingPlace
  split
  · next hle =>
      have hone : (10 : ℚ) ^ (-0 : ℤ) ≤ fraction (num, den) := by
        have hdenQ : (0 : ℚ) < den := by exact_mod_cast hden
        have hleQ : (den : ℚ) ≤ num := by exact_mod_cast hle
        simpa [fraction, one_le_div hdenQ] using hleQ
      have hscale : ((1 : ℕ) : ℚ) = 10 ^ (0 : ℤ) := by simp
      simpa using zpow_digitCount_le hden hscale hone
  · refine zpow_digitCount_le hden ?_ hv
    rw [show (400 : ℤ) = (400 : ℕ) from rfl]
    generalize 400 = k
    simp

/-! ### Magnitudes lie on the last grid -/

theorem Dyadic.ofPattern_bounds {b : ℕ} (hpos : 0 < b) (hb : b < infinityPattern) :
    (1 : ℚ) ≤ (ofPattern b).significand ∧ ((ofPattern b).significand : ℚ) < 2 ^ 53 ∧
      -1074 ≤ (ofPattern b).exponent ∧ (ofPattern b).exponent ≤ 971 := by
  simp only [infinityPattern, Nat.pow_eq] at hb
  simp only [ofPattern, Nat.pow_eq]
  split
  · refine ⟨by exact_mod_cast hpos, ?_, by norm_num, by norm_num⟩
    exact_mod_cast (by omega : b < 2 ^ 53)
  · refine ⟨?_, ?_, ?_, ?_⟩
    · exact_mod_cast (by omega : 1 ≤ 2 ^ 52 + b % 2 ^ 52)
    · exact_mod_cast (by omega : 2 ^ 52 + b % 2 ^ 52 < 2 ^ 53)
    · simp only
      omega
    · simp only
      omega

/-- The last grid is fine enough for the smallest magnitude. -/
theorem five_pow_le {m : ℕ} (hm : m ≤ 1074) : (2 : ℚ) ^ 53 * 5 ^ m ≤ 10 ^ (767 : ℤ) := by
  have hlast : 2 ^ 53 * 5 ^ 1074 ≤ 10 ^ 767 := by decide +kernel
  calc (2 : ℚ) ^ 53 * 5 ^ m ≤ 2 ^ 53 * 5 ^ 1074 := by gcongr; norm_num
    _ ≤ 10 ^ (767 : ℤ) := by exact_mod_cast hlast

theorem two_zpow_neg (n : ℕ) : (2 : ℚ) ^ (-(n : ℤ)) = 5 ^ n * 10 ^ (-(n : ℤ)) := by
  have hten : (10 : ℚ) ^ n = 2 ^ n * 5 ^ n := by
    rw [← mul_pow]
    norm_num
  rw [zpow_neg, zpow_neg, zpow_natCast, zpow_natCast, hten]
  field_simp

/-- A whole number times a power of two is one times a power of ten. -/
theorem Dyadic.onGrid (d : Dyadic) : OnGrid d.value (min 0 d.exponent) := by
  obtain ⟨n, hn | hn⟩ := Int.eq_nat_or_neg d.exponent
  · refine ⟨d.significand * 2 ^ n, ?_⟩
    rw [value, hn, min_eq_left (Int.natCast_nonneg n)]
    simp
  · refine ⟨d.significand * 5 ^ n, ?_⟩
    rw [value, hn, min_eq_right (by omega), two_zpow_neg]
    push_cast
    ring

/-- The place of the leading digit, bounded by any power of ten above the number. -/
theorem leadingPlace_le {num den : ℕ} {k : ℤ} (hden : 0 < den)
    (hlow : (10 : ℚ) ^ (-400 : ℤ) ≤ fraction (num, den))
    (hhigh : fraction (num, den) < (10 : ℚ) ^ k) : leadingPlace num den ≤ k := by
  have hlt := (zpow_leadingPlace_le hden hlow).trans_lt hhigh
  rw [zpow_lt_zpow_iff_right₀ (by norm_num)] at hlt
  omega

theorem Dyadic.value_lt {d : Dyadic} (hs : (d.significand : ℚ) < 2 ^ 53)
    (he : -1074 ≤ d.exponent ∧ d.exponent ≤ 971) :
    d.value < (10 : ℚ) ^ (767 + min 0 d.exponent) := by
  obtain ⟨n, hn | hn⟩ := Int.eq_nat_or_neg d.exponent
  · rw [value, hn, min_eq_left (Int.natCast_nonneg n), add_zero]
    calc (d.significand : ℚ) * 2 ^ (n : ℤ) < 2 ^ 53 * 2 ^ (n : ℤ) := by gcongr
      _ = 2 ^ (53 + n : ℤ) := by
          rw [zpow_add₀ (by norm_num)]
          norm_cast
      _ ≤ 2 ^ (3 * (767 : ℕ) : ℤ) := zpow_le_zpow_right₀ (by norm_num) (by push_cast; omega)
      _ ≤ 10 ^ ((767 : ℕ) : ℤ) := two_zpow_le 767
  · rw [value, hn, min_eq_right (by omega), two_zpow_neg, ← mul_assoc]
    calc (d.significand : ℚ) * 5 ^ n * 10 ^ (-(n : ℤ))
        < 2 ^ 53 * 5 ^ n * 10 ^ (-(n : ℤ)) := by gcongr
      _ ≤ 10 ^ (767 : ℤ) * 10 ^ (-(n : ℤ)) := by
          gcongr
          exact five_pow_le (by omega)
      _ = 10 ^ (767 + -(n : ℤ)) := (zpow_add₀ (by norm_num) 767 _).symm

theorem Dyadic.le_value {d : Dyadic} (hs : (1 : ℚ) ≤ d.significand) (he : -1074 ≤ d.exponent) :
    (10 : ℚ) ^ (-400 : ℤ) ≤ d.value := by
  calc (10 : ℚ) ^ (-400 : ℤ) ≤ 2 ^ (-1076 : ℤ) := ten_zpow_le
    _ ≤ 2 ^ d.exponent := zpow_le_zpow_right₀ (by norm_num) (by omega)
    _ ≤ d.significand * 2 ^ d.exponent := le_mul_of_one_le_left (by positivity) hs

/-- What the search starts from: the magnitude as a fraction, within the powers of ten that
the leading place says, and on the last grid. -/
theorem Dyadic.ratio_ofPattern {b num den : ℕ} (hne : b ≠ 0) (hb : b < infinityPattern)
    (h : (ofPattern b).ratio = (num, den)) :
    0 < den ∧ nearestTo (fraction (num, den)) = b ∧
      (10 : ℚ) ^ (leadingPlace num den - 1) ≤ fraction (num, den) ∧
      OnGrid (fraction (num, den)) (leadingPlace num den - (767 : ℕ)) := by
  obtain ⟨hs₁, hs₂, he⟩ := ofPattern_bounds (Nat.pos_of_ne_zero hne) hb
  have hround := nearestTo_ofPattern hb
  generalize ofPattern b = d at *
  have hden : 0 < den := by simpa [h] using d.ratio_den_pos
  have hvalue : fraction (num, den) = d.value := h ▸ d.fraction_ratio
  have hlow : (10 : ℚ) ^ (-400 : ℤ) ≤ fraction (num, den) := hvalue ▸ le_value hs₁ he.1
  refine ⟨hden, hvalue ▸ hround, zpow_leadingPlace_le hden hlow, ?_⟩
  rw [hvalue]
  refine d.onGrid.mono ?_
  have hplace := leadingPlace_le hden hlow (hvalue ▸ d.value_lt hs₂ he)
  push_cast
  omega

/-- The shortest decimal of a magnitude has its pattern. -/
theorem pattern_shortest {b : ℕ} (hb : b < infinityPattern) : (shortest b).pattern = b := by
  unfold shortest
  split
  · next hzero => simp [Decimal.pattern, hzero]
  · next hne =>
      generalize hr : (Dyadic.ofPattern b).ratio = r
      obtain ⟨-, hround, -, hgrid⟩ := Dyadic.ratio_ofPattern hne hb hr
      rw [Decimal.pattern_eq, value_normalize, ← Decimal.pattern_eq]
      exact pattern_searchGrids hround hgrid

end FrameLisp.Number
