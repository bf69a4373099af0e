/-
FrameLisp/Proofs/Number/Nearest.lean

What rounding to the nearest magnitude means.

`nearestTo` says how a number is rounded.  Here is what comes out of it: no magnitude
is nearer to the number, and if another one is just as near then the pattern chosen is
even.  This determines the pattern (`IsNearest.eq_of_tie`) and makes rounding monotone
(`nearestTo_mono`).

Patterns are ordered as their magnitudes, which do not stop at the largest finite one:
the pattern of infinity would denote `2 ^ 1024` if the spacing went on, and rounding
treats it as that.  So a number is rounded among all patterns first and cut off at
infinity afterwards, and what is cut off is exactly what is not below

    overflowBound  =  2 ^ 1024 - 2 ^ 970,

halfway between the largest magnitude and the next one there would be.
-/
import FrameLisp.Proofs.Number.Rounding
import Mathlib.Tactic.LinearCombination

namespace FrameLisp.Number

/-! ### Magnitudes in order -/

/-- The magnitude that a pattern denotes. -/
def magnitude (b : ℕ) : ℚ := (Dyadic.ofPattern b).value

/-- Within a block of patterns the magnitudes are multiples of one spacing, the first
magnitude of the next block included. -/
theorem magnitude_block {k s : ℕ} (hs : s ≤ 2 ^ 53) (hk : k = 0 ∨ 2 ^ 52 ≤ s) :
    magnitude (k * 2 ^ 52 + s) = s * (2 : ℚ) ^ ((k : ℤ) - 1074) := by
  simp only [magnitude, Dyadic.ofPattern, Dyadic.value, Nat.pow_eq]
  split
  · next hlt =>
      obtain rfl : k = 0 := by omega
      simp
  · next hge =>
      rcases hs.eq_or_lt with rfl | hs
      · -- the carry: half the significand at twice the spacing
        have hdiv : (k * 2 ^ 52 + 2 ^ 53) / 2 ^ 52 = k + 2 := by omega
        have hmod : (k * 2 ^ 52 + 2 ^ 53) % 2 ^ 52 = 0 := by omega
        have hexp : ((k + 2 : ℕ) : ℤ) - 1075 = (k - 1074) + 1 := by
          push_cast
          ring
        rw [hdiv, hmod, hexp, zpow_add_one₀ (by norm_num)]
        push_cast
        ring
      · have hdiv : (k * 2 ^ 52 + s) / 2 ^ 52 = k + 1 := by omega
        have hmod : 2 ^ 52 + (k * 2 ^ 52 + s) % 2 ^ 52 = s := by omega
        have hexp : ((k + 1 : ℕ) : ℤ) - 1075 = k - 1074 := by
          push_cast
          ring
        rw [hdiv, hmod, hexp]

theorem magnitude_lt_succ (b : ℕ) : magnitude b < magnitude (b + 1) := by
  obtain ⟨k, s, rfl, hs, hk⟩ : ∃ k s, b = k * 2 ^ 52 + s ∧ s < 2 ^ 53 ∧ (k = 0 ∨ 2 ^ 52 ≤ s) := by
    by_cases hb : b < 2 ^ 52
    · exact ⟨0, b, by omega, by omega, .inl rfl⟩
    · exact ⟨b / 2 ^ 52 - 1, 2 ^ 52 + b % 2 ^ 52, by omega, by omega, .inr (by omega)⟩
  rw [add_assoc, magnitude_block hs.le hk, magnitude_block (Nat.succ_le_of_lt hs) (by omega)]
  gcongr
  exact Nat.lt_succ_self s

theorem magnitude_strictMono : StrictMono magnitude := strictMono_nat_of_lt_succ magnitude_lt_succ

theorem magnitude_zero : magnitude 0 = 0 := by
  simp [magnitude, Dyadic.ofPattern, Dyadic.value]

/-! ### Nearest patterns -/

/-- No magnitude is nearer to `v` than that of `b`, and `b` is even if one is as near. -/
structure IsNearest (v : ℚ) (b : ℕ) : Prop where
  le : ∀ c, |v - magnitude b| ≤ |v - magnitude c|
  even : ∀ c, c ≠ b → |v - magnitude c| = |v - magnitude b| → b % 2 = 0

section Neighbours

variable {v : ℚ} {b : ℕ} (hlow : magnitude b ≤ v) (hhigh : v < magnitude (b + 1))

include hlow hhigh

/-- On either side of `v` the neighbour is the nearest, and strictly so. -/
theorem distance_neighbours (c : ℕ) :
    (c < b ∧ v - magnitude b < |v - magnitude c|) ∨
      (c = b ∧ |v - magnitude c| = v - magnitude b) ∨
      (c = b + 1 ∧ |v - magnitude c| = magnitude (b + 1) - v) ∨
      (b + 1 < c ∧ magnitude (b + 1) - v < |v - magnitude c|) := by
  rcases lt_trichotomy c b with hc | rfl | hc
  · have hlt := magnitude_strictMono hc
    refine .inl ⟨hc, ?_⟩
    rw [abs_of_nonneg (by linarith)]
    linarith
  · exact .inr (.inl ⟨rfl, abs_of_nonneg (by linarith)⟩)
  · rcases (Nat.succ_le_of_lt hc).eq_or_lt with rfl | hc
    · refine .inr (.inr (.inl ⟨rfl, ?_⟩))
      rw [abs_of_neg (by linarith), neg_sub]
    · have hlt := magnitude_strictMono hc
      refine .inr (.inr (.inr ⟨hc, ?_⟩))
      rw [abs_of_neg (by linarith)]
      linarith

theorem isNearest_low (h : v - magnitude b < magnitude (b + 1) - v ∨
    v - magnitude b = magnitude (b + 1) - v ∧ b % 2 = 0) : IsNearest v b := by
  have hself : |v - magnitude b| = v - magnitude b := abs_of_nonneg (by linarith)
  have hle : v - magnitude b ≤ magnitude (b + 1) - v := h.elim le_of_lt fun h => h.1.le
  constructor
  · intro c
    rw [hself]
    rcases distance_neighbours hlow hhigh c with ⟨-, hc⟩ | ⟨-, hc⟩ | ⟨-, hc⟩ | ⟨-, hc⟩ <;> linarith
  · intro c hne heq
    rw [hself] at heq
    -- only the upper neighbour can be as near, and then there is a tie
    rcases distance_neighbours hlow hhigh c with ⟨-, hc⟩ | ⟨hc, -⟩ | ⟨-, hc⟩ | ⟨-, hc⟩
    · linarith
    · exact absurd hc hne
    · rcases h with h | h
      · linarith
      · exact h.2
    · linarith

theorem isNearest_high (h : magnitude (b + 1) - v < v - magnitude b ∨
    magnitude (b + 1) - v = v - magnitude b ∧ (b + 1) % 2 = 0) : IsNearest v (b + 1) := by
  have hself : |v - magnitude (b + 1)| = magnitude (b + 1) - v := by
    rw [abs_of_neg (by linarith), neg_sub]
  have hle : magnitude (b + 1) - v ≤ v - magnitude b := h.elim le_of_lt fun h => h.1.le
  constructor
  · intro c
    rw [hself]
    rcases distance_neighbours hlow hhigh c with ⟨-, hc⟩ | ⟨-, hc⟩ | ⟨-, hc⟩ | ⟨-, hc⟩ <;> linarith
  · intro c hne heq
    rw [hself] at heq
    rcases distance_neighbours hlow hhigh c with ⟨-, hc⟩ | ⟨-, hc⟩ | ⟨hc, -⟩ | ⟨-, hc⟩
    · linarith
    · rcases h with h | h
      · linarith
      · exact h.2
    · exact absurd hc hne
    · linarith

end Neighbours

namespace IsNearest

variable {v w : ℚ} {b c : ℕ}

theorem mono (hb : IsNearest v b) (hc : IsNearest w c) (h : v < w) : b ≤ c := by
  refine Nat.le_of_not_lt fun hlt => ?_
  have hmag := magnitude_strictMono hlt
  -- `v` is on the upper side of the middle between the two, and `w` on the lower
  have hv := sq_le_sq.mpr (hb.le c)
  have hw := sq_le_sq.mpr (hc.le b)
  nlinarith

/-- Two nearest patterns are neighbours: one between them would be nearer. -/
theorem eq_succ_of_tie (hb : ∀ d, |v - magnitude b| ≤ |v - magnitude d|)
    (htie : |v - magnitude c| = |v - magnitude b|) (hlt : b < c) : c = b + 1 := by
  by_contra hne
  have h₁ := magnitude_strictMono (show b < b + 1 by omega)
  have h₂ := magnitude_strictMono (show b + 1 < c by omega)
  have hmid : v - magnitude b = magnitude c - v := by
    rcases abs_eq_abs.mp htie with h | h <;> linarith
  have hnear := hb (b + 1)
  rw [abs_of_nonneg (by linarith : 0 ≤ v - magnitude b), le_abs] at hnear
  rcases hnear with h | h <;> linarith

/-- Of two neighbours one is odd. -/
theorem eq_of_tie (hb : IsNearest v b) (htie : |v - magnitude c| = |v - magnitude b|)
    (hc : c ≠ b → c % 2 = 0) : c = b := by
  by_contra hne
  have hceven := hc hne
  have hbeven := hb.even c hne htie
  rcases Nat.lt_or_gt_of_ne hne with hlt | hgt
  · have hsucc := eq_succ_of_tie (fun d => htie.trans_le (hb.le d)) htie.symm hlt
    omega
  · have hsucc := eq_succ_of_tie hb.le htie hgt
    omega

end IsNearest

/-! ### Rounding gives the nearest -/

/-- The pattern nearest to a number among all patterns, as if there were no largest
finite magnitude. -/
def nearestPattern (v : ℚ) : ℕ :=
  if v = 0 then 0 else (spacing v + 1074).toNat * 2 ^ 52 + roundEven (v / 2 ^ spacing v)

theorem nearestTo_eq_min (v : ℚ) : nearestTo v = min infinityPattern (nearestPattern v) := by
  unfold nearestTo nearestPattern
  split
  · exact (Nat.min_zero _).symm
  · rfl

theorem roundEven_cases (v : ℚ) :
    (roundEven v = ⌊v⌋₊ ∧ (v - ⌊v⌋₊ < 1 / 2 ∨ v - ⌊v⌋₊ = 1 / 2 ∧ ⌊v⌋₊ % 2 = 0)) ∨
      (roundEven v = ⌊v⌋₊ + 1 ∧ (1 / 2 < v - ⌊v⌋₊ ∨ v - ⌊v⌋₊ = 1 / 2 ∧ (⌊v⌋₊ + 1) % 2 = 0)) := by
  unfold roundEven
  split
  · next h => exact .inl ⟨rfl, h⟩
  · next h =>
      obtain ⟨hlt, htie⟩ := not_or.mp h
      refine .inr ⟨rfl, ?_⟩
      rcases (not_lt.mp hlt).lt_or_eq with hgt | heq
      · exact .inl hgt
      · have hodd : ¬⌊v⌋₊ % 2 = 0 := fun heven => htie ⟨heq.symm, heven⟩
        exact .inr ⟨heq.symm, by omega⟩

theorem spacing_bounds {v : ℚ} (hv : 0 < v) :
    v < 2 ^ 53 * (2 : ℚ) ^ spacing v ∧
      (spacing v = -1074 ∨ 2 ^ 52 * (2 : ℚ) ^ spacing v ≤ v) := by
  have hlog : spacing v = max (-1074) (Int.log 2 v - 52) := rfl
  constructor
  · have hupper : v < (2 : ℚ) ^ (Int.log 2 v + 1) := by
      exact_mod_cast Int.lt_zpow_succ_log_self (by norm_num) v
    calc v < 2 ^ (Int.log 2 v + 1) := hupper
      _ ≤ 2 ^ (53 + spacing v) := zpow_le_zpow_right₀ (by norm_num) (by omega)
      _ = 2 ^ 53 * 2 ^ spacing v := by
          rw [zpow_add₀ (by norm_num)]
          norm_cast
  · by_cases hsub : spacing v = -1074
    · exact .inl hsub
    · have hlower : (2 : ℚ) ^ Int.log 2 v ≤ v := by
        exact_mod_cast Int.zpow_log_le_self (by norm_num) hv
      refine .inr ?_
      calc (2 : ℚ) ^ 52 * 2 ^ spacing v = 2 ^ (52 + spacing v) := by
            rw [zpow_add₀ (by norm_num)]
            norm_cast
        _ = 2 ^ Int.log 2 v := by
            congr 1
            omega
        _ ≤ v := hlower

/-- Below and above a number are whole multiples of its spacing. -/
theorem magnitude_floor {v : ℚ} (hv : 0 < v) {s : ℕ} (hs : s = ⌊v / 2 ^ spacing v⌋₊) :
    magnitude ((spacing v + 1074).toNat * 2 ^ 52 + s) = s * (2 : ℚ) ^ spacing v ∧
      magnitude ((spacing v + 1074).toNat * 2 ^ 52 + s + 1) = (s + 1) * (2 : ℚ) ^ spacing v := by
  obtain ⟨hupper, hlower⟩ := spacing_bounds hv
  have hmin : -1074 ≤ spacing v := le_max_left _ _
  generalize spacing v = e at *
  obtain ⟨k, rfl⟩ : ∃ k : ℕ, e = (k : ℤ) - 1074 := ⟨(e + 1074).toNat, by omega⟩
  have hstep : (0 : ℚ) < 2 ^ ((k : ℤ) - 1074) := by positivity
  have hs₁ : s < 2 ^ 53 := by
    rw [hs, Nat.floor_lt (by positivity), div_lt_iff₀ hstep]
    exact_mod_cast hupper
  have hs₂ : k = 0 ∨ 2 ^ 52 ≤ s := by
    refine hlower.imp (fun h => by omega) fun h => ?_
    rw [hs, Nat.le_floor_iff (by positivity), le_div_iff₀ hstep]
    exact_mod_cast h
  have hk : ((k : ℤ) - 1074 + 1074).toNat = k := by omega
  rw [hk, add_assoc, magnitude_block hs₁.le hs₂, magnitude_block hs₁ (by omega)]
  exact ⟨rfl, by push_cast; rfl⟩

/-- Rounding a number of units to a whole number of them takes the nearest pattern, if the
patterns there count units. -/
theorem isNearest_roundEven {p : ℕ} {m unit : ℚ} (hp : p % 2 = 0) (hm : 0 ≤ m) (hunit : 0 < unit)
    (hlow : magnitude (p + ⌊m⌋₊) = ⌊m⌋₊ * unit)
    (hhigh : magnitude (p + ⌊m⌋₊ + 1) = (⌊m⌋₊ + 1) * unit) :
    IsNearest (m * unit) (p + roundEven m) := by
  have hle : magnitude (p + ⌊m⌋₊) ≤ m * unit := by
    rw [hlow]
    gcongr
    exact Nat.floor_le hm
  have hlt : m * unit < magnitude (p + ⌊m⌋₊ + 1) := by
    rw [hhigh]
    gcongr
    exact Nat.lt_floor_add_one m
  rcases roundEven_cases m with ⟨hround, hcase⟩ | ⟨hround, hcase⟩
  · rw [hround]
    refine isNearest_low hle hlt ?_
    rw [hlow, hhigh]
    refine hcase.imp (fun h => ?_) fun ⟨htie, heven⟩ => ⟨?_, by omega⟩
    · nlinarith
    · linear_combination 2 * unit * htie
  · rw [hround, ← add_assoc]
    refine isNearest_high hle hlt ?_
    rw [hlow, hhigh]
    refine hcase.imp (fun h => ?_) fun ⟨htie, heven⟩ => ⟨?_, by omega⟩
    · nlinarith
    · linear_combination -2 * unit * htie

theorem isNearest_nearestPattern {v : ℚ} (hv : 0 ≤ v) : IsNearest v (nearestPattern v) := by
  rcases hv.eq_or_lt with rfl | hv
  · rw [nearestPattern, if_pos rfl]
    refine ⟨fun c => ?_, fun _ _ _ => rfl⟩
    rw [magnitude_zero, sub_self, abs_zero]
    exact abs_nonneg _
  · obtain ⟨hlow, hhigh⟩ := magnitude_floor hv rfl
    have hunit : (0 : ℚ) < 2 ^ spacing v := by positivity
    have hnear := isNearest_roundEven (by omega) (by positivity) hunit hlow hhigh
    rw [div_mul_cancel₀ v hunit.ne'] at hnear
    rwa [nearestPattern, if_neg hv.ne']

/-- A greater number is not rounded to a smaller pattern. -/
theorem nearestTo_mono {v w : ℚ} (hv : 0 ≤ v) (h : v ≤ w) : nearestTo v ≤ nearestTo w := by
  rw [nearestTo_eq_min, nearestTo_eq_min]
  rcases h.eq_or_lt with rfl | hlt
  · exact le_rfl
  · have hnear := (isNearest_nearestPattern hv).mono (isNearest_nearestPattern (hv.trans h)) hlt
    omega

/-! ### Overflow -/

/-- Halfway between the largest magnitude and the one that would come next. -/
def overflowBound : ℚ := 2 ^ 1024 - 2 ^ 970

theorem magnitude_infinityPattern : magnitude infinityPattern = 2 ^ 1024 := by
  have hpattern : infinityPattern = 2046 * 2 ^ 52 + 2 ^ 52 := rfl
  have hlimit : (2 : ℚ) ^ 1024 = 2 ^ 972 * 2 ^ 52 := pow_add 2 972 52
  rw [hpattern, magnitude_block (by norm_num) (.inr le_rfl), hlimit, mul_comm]
  norm_num

theorem magnitude_largest : magnitude (infinityPattern - 1) = 2 ^ 1024 - 2 * 2 ^ 970 := by
  have hpattern : infinityPattern - 1 = 2045 * 2 ^ 52 + (2 ^ 53 - 1) := rfl
  have hlimit : (2 : ℚ) ^ 1024 = 2 ^ 970 * 2 ^ 54 := pow_add 2 970 54
  have hstep : (2 : ℚ) ^ 971 = 2 ^ 970 * 2 := pow_succ 2 970
  rw [hpattern, magnitude_block (by norm_num) (.inr (by norm_num)), hlimit]
  norm_num [hstep]
  generalize (2 : ℚ) ^ 970 = half
  ring

/-- What is rounded to infinity or beyond. -/
theorem infinityPattern_le_iff {v : ℚ} (hv : 0 ≤ v) :
    infinityPattern ≤ nearestPattern v ↔ overflowBound ≤ v := by
  have hnear := isNearest_nearestPattern hv
  have hlargest := magnitude_largest
  have hnext := magnitude_infinityPattern
  have hodd : (infinityPattern - 1) % 2 = 1 := rfl
  have hpos : (0 : ℚ) < 2 ^ 970 := by positivity
  unfold overflowBound
  generalize nearestPattern v = b at *
  generalize (2 : ℚ) ^ 1024 = limit at *
  generalize (2 : ℚ) ^ 970 = half at *
  constructor
  · intro hle
    by_contra hlt
    -- the largest magnitude would be nearer
    have hmag : limit ≤ magnitude b := hnext ▸ magnitude_strictMono.monotone hle
    have hnear := hnear.le (infinityPattern - 1)
    rw [hlargest, abs_of_neg (by linarith : v - magnitude b < 0), le_abs] at hnear
    rcases hnear with h | h <;> linarith
  · intro hle
    by_contra hlt
    have hb : b ≤ infinityPattern - 1 := by omega
    have hmag : magnitude b ≤ limit - 2 * half := hlargest ▸ magnitude_strictMono.monotone hb
    have hself : |v - magnitude b| = v - magnitude b := abs_of_nonneg (by linarith)
    have hnear' := hnear.le infinityPattern
    rw [hnext, hself, le_abs] at hnear'
    -- infinity is as near only at the bound itself, and there the largest pattern is odd
    have htie : magnitude b = limit - 2 * half ∧ limit - v = v - magnitude b := by
      rcases hnear' with h | h
      · linarith
      · exact ⟨by linarith, by linarith⟩
    have heven : b % 2 = 0 := by
      refine hnear.even infinityPattern (by omega) ?_
      rw [hnext, hself, abs_of_neg (by linarith : v - limit < 0), neg_sub]
      exact htie.2
    have hlast : b = infinityPattern - 1 :=
      magnitude_strictMono.injective (htie.1.trans hlargest.symm)
    omega

end FrameLisp.Number
