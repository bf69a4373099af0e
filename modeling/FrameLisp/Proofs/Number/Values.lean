/-
FrameLisp/Proofs/Number/Values.lean

Numbers as the values they denote.

The library takes a number apart by arithmetic on its bits.  Here this is compared with
what the bits denote: `exactValue?` is the value of a finite number, by sign, mantissa
and exponent, and a number with the pattern `b` has the value of the magnitude `b` with
its sign (`exactValue?_finite`).

So rounding can be said of numbers.  `RoundsTo negative v x` says that the number `x` is
what the rational number `v`, taken with a sign, rounds to: a finite number that no other
one is nearer to, the even one of two that are as near, and an infinity from
`overflowBound` on, each with the sign given, also if it is a zero.  There is exactly
one such number (`roundsTo_iff`).

Truncation is the other way from numbers to whole ones: a finite number truncates to the
whole part of its value, and no other number truncates at all (`truncate?_eq_some_iff`).
-/
import FrameLisp.Proofs.Number.Bits
import FrameLisp.Proofs.Number.Nearest

namespace FrameLisp.Number

open Float.Model Float.Model.UnpackedFloat

/-! ### The value of a number -/

/-- The value of sign, mantissa and exponent, if they are those of a finite number. -/
def unpackedValue? : UnpackedFloat → Option ℚ
  | .zero _ => some 0
  | .finite .positive m e _ => some (m * 2 ^ e)
  | .finite .negative m e _ => some (-(m * 2 ^ e))
  | .infinity _ => none
  | .notANumber => none

/-- The value of a number, if it is finite. -/
def exactValue? (x : Float) : Option ℚ := unpackedValue? x.toModel.unpack

/-- A magnitude taken with a sign. -/
def signed (negative : Bool) (v : ℚ) : ℚ := if negative then -v else v

/-- The 64 bits of a number. -/
abbrev word (x : Float) : BitVec Format.binary64.numBits := x.toBits.toBitVec

section Fields

variable (x : Float)

theorem toNat_unpackExponent : (unpackExponent (word x)).toNat = pattern x / 2 ^ 52 := by
  have hpattern : pattern x = x.toBits.toNat % 2 ^ 63 := rfl
  rw [unpackExponent_def, BitVec.extractLsb'_toNat, Nat.shiftRight_eq_div_pow, hpattern]
  show x.toBits.toNat / 2 ^ 52 % 2 ^ 11 = _
  omega

theorem toNat_unpackMantissa : (unpackMantissa (word x)).toNat = pattern x % 2 ^ 52 := by
  have hpattern : pattern x = x.toBits.toNat % 2 ^ 63 := rfl
  rw [unpackMantissa_def, BitVec.extractLsb'_toNat, Nat.shiftRight_eq_div_pow, hpattern]
  show x.toBits.toNat / 2 ^ 0 % 2 ^ 52 = _
  omega

/-- The sign bit as a sign. -/
def signOf : Sign := if isNegative x then .negative else .positive

theorem ofBitVec_unpackSign : Sign.ofBitVec (unpackSign (word x)) = signOf x := by
  have hlt : x.toBits.toNat < 2 ^ 64 := x.toBits.toNat_lt
  have hbit : (unpackSign (word x)).toNat = x.toBits.toNat / 2 ^ 63 := by
    rw [unpackSign_def, BitVec.extractLsb'_toNat, Nat.shiftRight_eq_div_pow]
    show x.toBits.toNat / 2 ^ 63 % 2 ^ 1 = _
    omega
  have hzero : unpackSign (word x) = 0#1 ↔ x.toBits.toNat / 2 ^ 63 = 0 := by
    rw [← BitVec.toNat_inj, hbit]
    rfl
  by_cases hneg : 2 ^ 63 ≤ x.toBits.toNat
  · have hsign : isNegative x = true := decide_eq_true hneg
    rw [Sign.ofBitVec, if_neg (by rw [hzero]; omega), signOf, hsign, if_pos rfl]
  · have hsign : isNegative x = false := decide_eq_false hneg
    rw [Sign.ofBitVec, if_pos (by rw [hzero]; omega), signOf, hsign]
    rfl

theorem unpackExponent_eq_ones : unpackExponent (word x) = -1#11 ↔ infinityPattern ≤ pattern x := by
  have hlt : pattern x < 2 ^ 63 := Nat.mod_lt _ (by norm_num)
  rw [← BitVec.toNat_inj, toNat_unpackExponent]
  show pattern x / 2 ^ 52 = 2047 ↔ 2047 * 2 ^ 52 ≤ pattern x
  omega

theorem unpackExponent_eq_zero : unpackExponent (word x) = 0#11 ↔ pattern x < 2 ^ 52 := by
  rw [← BitVec.toNat_inj, toNat_unpackExponent]
  show pattern x / 2 ^ 52 = 0 ↔ _
  omega

theorem unpackMantissa_eq_zero : unpackMantissa (word x) = 0#52 ↔ pattern x % 2 ^ 52 = 0 := by
  rw [← BitVec.toNat_inj, toNat_unpackMantissa]
  rfl

theorem toNat_significand :
    (1#1 ++ unpackMantissa (word x)).toNat = 2 ^ 52 + pattern x % 2 ^ 52 := by
  have hlt : pattern x % 2 ^ 52 < 2 ^ 52 := Nat.mod_lt _ (by norm_num)
  rw [BitVec.toNat_append, toNat_unpackMantissa]
  show 1 <<< 52 ||| pattern x % 2 ^ 52 = _
  rw [← Nat.shiftLeft_add_eq_or_of_lt hlt, Nat.one_shiftLeft]

end Fields

variable {x : Float}

theorem unpack_special (hx : infinityPattern ≤ pattern x) :
    x.toModel.unpack =
      if pattern x = infinityPattern then .infinity (signOf x) else .notANumber := by
  have hmantissa : unpackMantissa (word x) = 0#52 ↔ pattern x = infinityPattern := by
    have hlt : pattern x < 2 ^ 63 := Nat.mod_lt _ (by norm_num)
    have hinfinity : infinityPattern = 2047 * 2 ^ 52 := rfl
    rw [unpackMantissa_eq_zero]
    omega
  show UnpackedFloat.unpack Format.binary64 (word x) = _
  simp only [UnpackedFloat.unpack, (unpackExponent_eq_ones x).mpr hx, if_true, hmantissa,
    ofBitVec_unpackSign]

theorem unpack_zero (hx : pattern x = 0) : x.toModel.unpack = .zero (signOf x) := by
  have hones : unpackExponent (word x) ≠ -1#11 := by
    rw [ne_eq, unpackExponent_eq_ones, hx]
    decide
  have hzero : unpackExponent (word x) = 0#11 := by
    rw [unpackExponent_eq_zero, hx]
    norm_num
  have hmantissa : unpackMantissa (word x) = 0#52 := by
    rw [unpackMantissa_eq_zero, hx]
    norm_num
  show UnpackedFloat.unpack Format.binary64 (word x) = _
  rw [UnpackedFloat.unpack]
  simp only [if_neg hones, if_pos hzero, dif_pos hmantissa, ofBitVec_unpackSign]

theorem unpack_finite (hx : pattern x ≠ 0) (hlt : pattern x < infinityPattern) :
    ∃ hpos, x.toModel.unpack = .finite (signOf x) (Dyadic.ofPattern (pattern x)).significand
      (Dyadic.ofPattern (pattern x)).exponent hpos := by
  have hones : unpackExponent (word x) ≠ -1#11 := by
    rw [ne_eq, unpackExponent_eq_ones]
    exact not_le.mpr hlt
  show ∃ hpos, UnpackedFloat.unpack Format.binary64 (word x) = _
  rw [UnpackedFloat.unpack]
  by_cases hsub : pattern x < 2 ^ 52
  · have hzero : unpackExponent (word x) = 0#11 := (unpackExponent_eq_zero x).mpr hsub
    have hmantissa : unpackMantissa (word x) ≠ 0#52 := by
      rw [ne_eq, unpackMantissa_eq_zero]
      omega
    have hdyadic : Dyadic.ofPattern (pattern x) = ⟨pattern x, -1074⟩ := if_pos hsub
    have hsignificand : (unpackMantissa (word x)).toNat = pattern x := by
      rw [toNat_unpackMantissa, Nat.mod_eq_of_lt hsub]
    simp only [if_neg hones, if_pos hzero, dif_neg hmantissa, ofBitVec_unpackSign, hdyadic,
      hsignificand]
    refine ⟨Nat.pos_of_ne_zero hx, ?_⟩
    rw [hzero]
    rfl
  · have hzero : unpackExponent (word x) ≠ 0#11 := by
      rwa [ne_eq, unpackExponent_eq_zero]
    have hdyadic : Dyadic.ofPattern (pattern x) =
        ⟨2 ^ 52 + pattern x % 2 ^ 52, ((pattern x / 2 ^ 52 : ℕ) : ℤ) - 1075⟩ := if_neg hsub
    simp only [if_neg hones, if_neg hzero, ofBitVec_unpackSign, hdyadic, toNat_unpackExponent]
    refine ⟨by positivity, ?_⟩
    congr 1
    exact toNat_significand x

/-- A finite number has the value of its magnitude with its sign. -/
theorem exactValue?_finite (hx : pattern x < infinityPattern) :
    exactValue? x = some (signed (isNegative x) (magnitude (pattern x))) := by
  by_cases hzero : pattern x = 0
  · rw [exactValue?, unpack_zero hzero, hzero, magnitude_zero]
    simp [unpackedValue?, signed]
  · obtain ⟨hpos, hunpack⟩ := unpack_finite hzero hx
    rw [exactValue?, hunpack, signOf, signed]
    cases isNegative x <;> rfl

theorem exactValue?_eq_some_iff {w : ℚ} : exactValue? x = some w ↔
    pattern x < infinityPattern ∧ signed (isNegative x) (magnitude (pattern x)) = w := by
  rcases lt_or_ge (pattern x) infinityPattern with hlt | hge
  · rw [exactValue?_finite hlt, Option.some_inj]
    exact (and_iff_right hlt).symm
  · rw [exactValue?, unpack_special hge]
    refine iff_of_false ?_ fun h => absurd h.1 (not_lt.mpr hge)
    split <;> exact nofun

theorem class_finite (hx : pattern x < infinityPattern) :
    x.isNaN = false ∧ x.isInf = false ∧ x.isFinite = true := by
  show x.toModel.unpack.isNaN = false ∧ x.toModel.unpack.isInf = false ∧
    x.toModel.unpack.isFinite = true
  by_cases hzero : pattern x = 0
  · rw [unpack_zero hzero]
    exact ⟨rfl, rfl, rfl⟩
  · obtain ⟨hpos, hunpack⟩ := unpack_finite hzero hx
    rw [hunpack]
    exact ⟨rfl, rfl, rfl⟩

theorem class_infinity (hx : pattern x = infinityPattern) :
    x.isNaN = false ∧ x.isInf = true ∧ x.isFinite = false := by
  show x.toModel.unpack.isNaN = false ∧ x.toModel.unpack.isInf = true ∧
    x.toModel.unpack.isFinite = false
  rw [unpack_special hx.ge, if_pos hx]
  exact ⟨rfl, rfl, rfl⟩

theorem class_nan (hx : infinityPattern < pattern x) :
    x.isNaN = true ∧ x.isInf = false ∧ x.isFinite = false := by
  show x.toModel.unpack.isNaN = true ∧ x.toModel.unpack.isInf = false ∧
    x.toModel.unpack.isFinite = false
  rw [unpack_special hx.le, if_neg hx.ne']
  exact ⟨rfl, rfl, rfl⟩

theorem isNaN_iff : x.isNaN = true ↔ infinityPattern < pattern x := by
  rcases lt_trichotomy (pattern x) infinityPattern with hx | hx | hx
  · rw [(class_finite hx).1]
    simp [hx.le]
  · rw [(class_infinity hx).1]
    simp [hx]
  · exact iff_of_true (class_nan hx).1 hx

theorem isInf_iff : x.isInf = true ↔ pattern x = infinityPattern := by
  rcases lt_trichotomy (pattern x) infinityPattern with hx | hx | hx
  · rw [(class_finite hx).2.1]
    simp [hx.ne]
  · exact iff_of_true (class_infinity hx).2.1 hx
  · rw [(class_nan hx).2.1]
    simp [hx.ne']

theorem isFinite_iff : x.isFinite = true ↔ pattern x < infinityPattern := by
  rcases lt_trichotomy (pattern x) infinityPattern with hx | hx | hx
  · exact iff_of_true (class_finite hx).2.2 hx
  · rw [(class_infinity hx).2.2]
    simp [hx]
  · rw [(class_nan hx).2.2]
    simp [hx.le]

/-! ### Rounding to a number -/

/-- The number `x` is the rational number `v`, which is not negative, taken with a sign and
rounded to nearest. -/
structure RoundsTo (negative : Bool) (v : ℚ) (x : Float) : Prop where
  /-- The sign is kept, also by zeros and infinities. -/
  sign : isNegative x = negative
  notNaN : x.isNaN = false
  overflow : x.isInf = true ↔ overflowBound ≤ v
  /-- No finite number is nearer. -/
  nearest : ∀ w y u, exactValue? x = some w → exactValue? y = some u →
    |signed negative v - w| ≤ |signed negative v - u|
  /-- Of two that are as near, the even one. -/
  even : ∀ w y u, exactValue? x = some w → exactValue? y = some u → u ≠ w →
    |signed negative v - u| = |signed negative v - w| → x.toBits.toNat % 2 = 0

theorem magnitude_nonneg (b : ℕ) : 0 ≤ magnitude b :=
  magnitude_zero.symm.trans_le (magnitude_strictMono.monotone (Nat.zero_le b))

section Signed

variable {negative : Bool} {v : ℚ}

theorem signed_injective (negative : Bool) : Function.Injective (signed negative) := by
  intro v w h
  cases negative with
  | false => exact h
  | true => exact neg_inj.mp h

theorem distance_signed (negative : Bool) (v m : ℚ) :
    |signed negative v - signed negative m| = |v - m| := by
  cases negative with
  | false => rfl
  | true =>
      show |-v - -m| = |v - m|
      rw [neg_sub_neg, abs_sub_comm]

theorem distance_signed_of_ne {other : Bool} {m : ℚ} (hv : 0 ≤ v) (hm : 0 ≤ m)
    (h : other ≠ negative) : |signed negative v - signed other m| = v + m := by
  cases negative <;> cases other <;> simp only [ne_eq, not_true_eq_false] at h
  · show |v - -m| = v + m
    rw [sub_neg_eq_add, abs_of_nonneg (add_nonneg hv hm)]
  · show |-v - m| = v + m
    rw [← neg_add', abs_neg, abs_of_nonneg (add_nonneg hv hm)]

variable {b c : ℕ} (hv : 0 ≤ v)

include hv

theorem distance_le_signed (negative other : Bool) :
    |v - magnitude c| ≤ |signed negative v - signed other (magnitude c)| := by
  have hm := magnitude_nonneg c
  by_cases h : other = negative
  · rw [h, distance_signed]
  · rw [distance_signed_of_ne hv hm h, abs_le]
    constructor <;> linarith

theorem IsNearest.even_signed {other : Bool} (hb : IsNearest v b)
    (hne : signed other (magnitude c) ≠ signed negative (magnitude b))
    (htie : |signed negative v - signed other (magnitude c)| = |v - magnitude b|) : b % 2 = 0 := by
  by_cases hc : c = b
  · subst hc
    -- with the other sign it is not nearer than zero, unless it is zero
    have hsign : other ≠ negative := fun h => hne (by rw [h])
    have hzero := hb.le 0
    rw [← htie, distance_signed_of_ne hv (magnitude_nonneg c) hsign, magnitude_zero, sub_zero,
      abs_of_nonneg hv] at hzero
    have hle : magnitude c ≤ magnitude 0 := by
      rw [magnitude_zero]
      linarith
    rw [Nat.le_zero.mp (magnitude_strictMono.le_iff_le.mp hle)]
  · have hle := (distance_le_signed hv negative other).trans_eq htie
    exact hb.even c hc (le_antisymm hle (hb.le c))

end Signed

theorem isNegative_ofPattern {b : ℕ} (hb : b ≤ infinityPattern) (negative : Bool) :
    isNegative (ofPattern negative b) = negative := by
  have hlt : b < 2 ^ 63 := hb.trans_lt (by decide)
  rw [isNegative, Nat.pow_eq, toNat_toBits_ofPattern hb]
  cases negative with
  | false => exact decide_eq_false (not_le.mpr hlt)
  | true => exact decide_eq_true (Nat.le_add_right _ _)

theorem exactValue?_ofPattern {b : ℕ} (hb : b < infinityPattern) (negative : Bool) :
    exactValue? (ofPattern negative b) = some (signed negative (magnitude b)) := by
  rw [exactValue?_eq_some_iff, pattern_ofPattern hb.le, isNegative_ofPattern hb.le]
  exact ⟨hb, rfl⟩

theorem toBits_mod_two : x.toBits.toNat % 2 = pattern x % 2 := by
  rw [pattern, Nat.pow_eq]
  omega

section Rounding

variable {negative : Bool} {v : ℚ} (hv : 0 ≤ v)

include hv

theorem nearestTo_eq_infinityPattern : nearestTo v = infinityPattern ↔ overflowBound ≤ v := by
  rw [nearestTo_eq_min, ← infinityPattern_le_iff hv, min_eq_left_iff]

/-- Below the infinity, rounding is to the nearest magnitude. -/
theorem isNearest_nearestTo (h : nearestTo v < infinityPattern) : IsNearest v (nearestTo v) := by
  rw [nearestTo_eq_min] at h ⊢
  rw [min_eq_right (by omega)]
  exact isNearest_nearestPattern hv

theorem roundsTo_of_pattern (hsign : isNegative x = negative) (hpattern : pattern x = nearestTo v) :
    RoundsTo negative v x := by
  refine ⟨hsign, ?_, ?_, ?_, ?_⟩
  · rw [Bool.eq_false_iff, ne_eq, isNaN_iff, hpattern]
    exact not_lt.mpr (nearestTo_le v)
  · rw [isInf_iff, hpattern, nearestTo_eq_infinityPattern hv]
  · intro w y u hw hu
    obtain ⟨hlt, rfl⟩ := exactValue?_eq_some_iff.mp hw
    obtain ⟨-, rfl⟩ := exactValue?_eq_some_iff.mp hu
    rw [hpattern] at hlt ⊢
    rw [hsign, distance_signed]
    exact ((isNearest_nearestTo hv hlt).le _).trans (distance_le_signed hv _ _)
  · intro w y u hw hu hne htie
    obtain ⟨hlt, rfl⟩ := exactValue?_eq_some_iff.mp hw
    obtain ⟨-, rfl⟩ := exactValue?_eq_some_iff.mp hu
    rw [hpattern] at hlt hne htie
    rw [hsign] at hne htie
    rw [distance_signed] at htie
    rw [toBits_mod_two, hpattern]
    exact (isNearest_nearestTo hv hlt).even_signed hv hne htie

theorem RoundsTo.pattern_eq (h : RoundsTo negative v x) : pattern x = nearestTo v := by
  have hnumber : ¬ infinityPattern < pattern x := by
    rw [← isNaN_iff, h.notNaN]
    exact Bool.false_ne_true
  by_cases hover : overflowBound ≤ v
  · rw [isInf_iff.mp (h.overflow.mpr hover), (nearestTo_eq_infinityPattern hv).mpr hover]
  · have hx : pattern x < infinityPattern := by
      have hne : pattern x ≠ infinityPattern := fun heq => hover (h.overflow.mp (isInf_iff.mpr heq))
      omega
    have hlt : nearestTo v < infinityPattern :=
      lt_of_le_of_ne (nearestTo_le v) fun heq => hover ((nearestTo_eq_infinityPattern hv).mp heq)
    -- the number with the nearest magnitude is as near; were it another one, both would be even
    have hvalue := exactValue?_finite hx
    have hother := exactValue?_ofPattern hlt negative
    rw [h.sign] at hvalue
    have hnear := isNearest_nearestTo hv hlt
    have htie : |v - magnitude (pattern x)| = |v - magnitude (nearestTo v)| := by
      refine le_antisymm ?_ (hnear.le _)
      have hle := h.nearest _ _ _ hvalue hother
      rwa [distance_signed, distance_signed] at hle
    refine hnear.eq_of_tie htie fun hne => ?_
    rw [← toBits_mod_two]
    refine h.even _ _ _ hvalue hother (fun heq => hne ?_) ?_
    · exact (magnitude_strictMono.injective (signed_injective negative heq)).symm
    · rw [distance_signed, distance_signed, htie]

/-- There is exactly one number that a rational number with a sign rounds to. -/
theorem roundsTo_iff : RoundsTo negative v x ↔ x = ofPattern negative (nearestTo v) := by
  constructor
  · intro h
    rw [← h.pattern_eq hv, ← h.sign, ofPattern_pattern]
  · rintro rfl
    exact roundsTo_of_pattern hv (isNegative_ofPattern (nearestTo_le v) negative)
      (pattern_ofPattern (nearestTo_le v) negative)

end Rounding

/-! ### Truncation -/

section Truncation

variable {q : ℚ} {n n' : ℤ}

/-- `n` is the whole part of `q`: rounded down if `q` is positive, and up if it is
negative. -/
structure IsTruncation (q : ℚ) (n : ℤ) : Prop where
  nonneg : 0 ≤ q → n = ⌊q⌋
  nonpos : q ≤ 0 → n = ⌈q⌉

theorem IsTruncation.neg (h : IsTruncation q n) : IsTruncation (-q) (-n) where
  nonneg hq := by rw [Int.floor_neg, h.nonpos (neg_nonneg.mp hq)]
  nonpos hq := by rw [Int.ceil_neg, h.nonneg (neg_nonpos.mp hq)]

theorem IsTruncation.unique (h : IsTruncation q n) (h' : IsTruncation q n') : n = n' := by
  rcases le_total 0 q with hq | hq
  · rw [h.nonneg hq, h'.nonneg hq]
  · rw [h.nonpos hq, h'.nonpos hq]

theorem isTruncation_fraction (num den : ℕ) :
    IsTruncation (fraction (num, den)) ((num / den : ℕ) : ℤ) := by
  have hfloor : ((num / den : ℕ) : ℤ) = ⌊fraction (num, den)⌋ :=
    (Rat.floor_intCast_div_natCast num den).symm
  refine ⟨fun _ => hfloor, fun hle => ?_⟩
  have hzero : fraction (num, den) = 0 := le_antisymm hle (by unfold fraction; positivity)
  rw [hfloor, hzero, Int.floor_zero, Int.ceil_zero]

theorem truncate?_finite (hx : pattern x < infinityPattern) :
    ∃ n, truncate? x = some n ∧ IsTruncation (signed (isNegative x) (magnitude (pattern x))) n := by
  have hdatum : datum x = .finite (isNegative x) (pattern x) := if_pos hx
  have hmagnitude := isTruncation_fraction (Dyadic.ofPattern (pattern x)).ratio.1
    (Dyadic.ofPattern (pattern x)).ratio.2
  rw [Prod.mk.eta, Dyadic.fraction_ratio] at hmagnitude
  unfold truncate?
  rw [hdatum]
  refine ⟨_, rfl, ?_⟩
  cases isNegative x with
  | false => exact hmagnitude
  | true => exact hmagnitude.neg

theorem truncate?_special (hx : infinityPattern ≤ pattern x) : truncate? x = none := by
  by_cases hinfinity : pattern x = infinityPattern
  · rw [truncate?, datum, if_neg (not_lt.mpr hx), if_pos hinfinity]
  · rw [truncate?, datum, if_neg (not_lt.mpr hx), if_neg hinfinity]

/-- A finite number truncates to the whole part of its value. -/
theorem truncate?_eq_some_iff :
    truncate? x = some n ↔ ∃ q, exactValue? x = some q ∧ IsTruncation q n := by
  rcases lt_or_ge (pattern x) infinityPattern with hx | hx
  · obtain ⟨n', hn', htrunc⟩ := truncate?_finite hx
    rw [hn', exactValue?_finite hx]
    constructor
    · intro h
      cases h
      exact ⟨_, rfl, htrunc⟩
    · rintro ⟨q, hq, h⟩
      cases hq
      rw [htrunc.unique h]
  · rw [truncate?_special hx]
    refine iff_of_false nofun ?_
    rintro ⟨q, hq, -⟩
    exact absurd (exactValue?_eq_some_iff.mp hq).1 (not_lt.mpr hx)

theorem truncate?_eq_none_iff : truncate? x = none ↔ x.isFinite = false := by
  rw [← Bool.not_eq_true, isFinite_iff, not_lt]
  constructor
  · intro h
    refine le_of_not_gt fun hlt => ?_
    obtain ⟨n, hn, -⟩ := truncate?_finite hlt
    rw [h] at hn
    cases hn
  · exact truncate?_special

end Truncation

end FrameLisp.Number
