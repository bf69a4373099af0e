/-
FrameLisp/Proofs/Number/Bits.lean

The text of a number reads back.

The text of a finite number is the layout of the shortest decimal that has the pattern of
the number.  What is read from it is a decimal of the same value, which therefore has the
same pattern; and a number is determined by its sign and its pattern.  So reading the text
gives the very same number back, the sign of a zero included (`ofToken?_text`).

How numbers are packed into bits is taken from the library, which has it in none of its
parts that could be imported alone.
-/
import FrameLisp.Proofs.Number.Shortest
import FrameLisp.Proofs.Number.Text
import Mathlib

namespace FrameLisp.Number

/-! ### Numbers and their patterns -/

/-- A number is determined by its sign and its pattern. -/
theorem ofPattern_pattern (x : Float) : ofPattern (isNegative x) (pattern x) = x := by
  have hlt : x.toBits.toNat < 2 ^ 64 := x.toBits.toNat_lt
  have hbits : (if isNegative x = true then 2 ^ 63 + pattern x else pattern x) =
      x.toBits.toNat := by
    by_cases h : 2 ^ 63 ≤ x.toBits.toNat
    · have hneg : isNegative x = true := decide_eq_true h
      rw [if_pos hneg, pattern, Nat.pow_eq]
      omega
    · have hneg : isNegative x = false := decide_eq_false h
      rw [if_neg (by simp [hneg]), pattern, Nat.pow_eq]
      omega
  rw [ofPattern, Nat.pow_eq, hbits, UInt64.ofNat_toNat, Float.ofBits_toBits]

section Bits

open Float.Model Float.Model.UnpackedFloat

theorem isNaNBits_eq_false {u : BitVec 64} (hu : u.toNat % 2 ^ 63 ≤ infinityPattern) :
    @isNaNBits Format.binary64 u = false := by
  rw [isNaNBits, decide_eq_false_iff_not]
  -- a NaN has every bit of the exponent set, and some bit below them
  rintro ⟨hexponent, hmantissa⟩
  rw [unpackExponent_def] at hexponent
  rw [unpackMantissa_def] at hmantissa
  have he : u.toNat / 2 ^ 52 % 2 ^ 11 = 2047 := by
    have h := congrArg BitVec.toNat hexponent
    rw [BitVec.extractLsb'_toNat, Nat.shiftRight_eq_div_pow] at h
    exact h
  have hm : u.toNat % 2 ^ 52 ≠ 0 := by
    intro hzero
    apply hmantissa
    apply BitVec.eq_of_toNat_eq
    rw [BitVec.extractLsb'_toNat]
    exact hzero
  simp only [infinityPattern, Nat.pow_eq] at hu
  omega

/-- Bits that are not those of a NaN are kept. -/
theorem toBits_ofBits {u : UInt64} (hu : u.toNat % 2 ^ 63 ≤ infinityPattern) :
    (Float.ofBits u).toBits = u := by
  have hpack := @pack_unpack Format.binary64 u.toBitVec (by decide)
  rw [isNaNBits_eq_false hu] at hpack
  exact UInt64.toBitVec_inj.mp hpack

end Bits

theorem toNat_toBits_ofPattern {b : ℕ} (hb : b ≤ infinityPattern) (negative : Bool) :
    (ofPattern negative b).toBits.toNat = if negative then 2 ^ 63 + b else b := by
  have hlt : b < 2 ^ 63 := hb.trans_lt (by decide)
  have hbits : (UInt64.ofNat (if negative then 2 ^ 63 + b else b)).toNat =
      if negative then 2 ^ 63 + b else b := by
    apply UInt64.toNat_ofNat_of_lt'
    show _ < 2 ^ 64
    split <;> omega
  have hmod : (if negative = true then 2 ^ 63 + b else b) % 2 ^ 63 = b := by
    split <;> omega
  rw [ofPattern, Nat.pow_eq, toBits_ofBits, hbits]
  rw [hbits, hmod]
  exact hb

theorem pattern_ofPattern {b : ℕ} (hb : b ≤ infinityPattern) (negative : Bool) :
    pattern (ofPattern negative b) = b := by
  have hlt : b < 2 ^ 63 := hb.trans_lt (by decide)
  rw [pattern, Nat.pow_eq, toNat_toBits_ofPattern hb]
  split <;> omega

theorem nearestTo_le (v : ℚ) : nearestTo v ≤ infinityPattern := by
  unfold nearestTo
  split
  · exact Nat.zero_le _
  · exact Nat.min_le_left _ _

/-- No literal denotes a NaN. -/
theorem pattern_le_of_ofToken? {t : String} {x : Float} (h : ofToken? t = some x) :
    pattern x ≤ infinityPattern := by
  obtain ⟨l, -, rfl⟩ := Option.map_eq_some_iff.mp h
  have hle : l.magnitude.pattern ≤ infinityPattern := by
    rw [Decimal.pattern_eq]
    exact nearestTo_le _
  rw [Literal.value, pattern_ofPattern hle]
  exact hle

/-! ### The text reads back -/

theorem toList_text {x : Float} (hx : pattern x < infinityPattern) :
    (text x).toList = signText (isNegative x) ++ (shortest (pattern x)).layout := by
  have hdatum : datum x = .finite (isNegative x) (pattern x) := if_pos hx
  simp only [text, hdatum, signText, String.toList_ofList]

/-- Reading the text of a finite number gives the number back. -/
theorem ofToken?_text {x : Float} (hx : pattern x < infinityPattern) :
    ofToken? (text x) = some x := by
  obtain ⟨d, hread, hvalue⟩ := readsAs_layout (shortest (pattern x)) (isNegative x)
  -- what is read may be another decimal than the shortest, but of the same value
  have hpattern : d.pattern = pattern x := by
    rw [Decimal.pattern_eq, hvalue, ← Decimal.pattern_eq, pattern_shortest hx]
  rw [ofToken?, Literal.ofToken?, toList_text hx, hread, Option.map_some, Literal.value, hpattern,
    ofPattern_pattern]

end FrameLisp.Number
