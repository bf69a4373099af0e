/-
FrameLisp/Number/Binary64.lean

The numbers of the language are the 64-bit binary floating-point numbers.  This
file looks at them through their bit pattern, in exact whole-number arithmetic,
so that reading and writing them can be reasoned about.

Leave the sign bit aside and call the remaining 63 bits, read as a whole number,
the *pattern* of a magnitude.  A pattern below `infinityPattern` denotes the
magnitude `Dyadic.ofPattern`, a whole number times a power of two, and patterns
are ordered as the magnitudes they denote.  In the other direction `nearest`
gives the pattern of the magnitude nearest to a fraction:

    nearest num den  =  the pattern nearest to  num / den,  a tie to the even one.

Because consecutive patterns denote consecutive magnitudes, the carry out of a
significand that rounds up to `2 ^ 53`, the step from the subnormal to the normal
magnitudes and the overflow to infinity need no case of their own: the rounded
significand is simply added to the scaled exponent.
-/

namespace FrameLisp.Number

/-! ### Magnitudes and patterns -/

/-- The magnitude `significand * 2 ^ exponent`. -/
structure Dyadic where
  significand : Nat
  exponent : Int
  deriving DecidableEq

/-- The pattern of infinity, above the pattern of every finite magnitude. -/
def infinityPattern : Nat := 2047 * Nat.pow 2 52

/-- The magnitude a pattern below `infinityPattern` denotes.  The lowest `2 ^ 52`
patterns are spaced like the `2 ^ 52` above them; from there on each block of
`2 ^ 52` patterns doubles the spacing. -/
def Dyadic.ofPattern (b : Nat) : Dyadic :=
  if b < Nat.pow 2 52 then ⟨b, -1074⟩
  else ⟨Nat.pow 2 52 + b % Nat.pow 2 52, ((b / Nat.pow 2 52 : Nat) : Int) - 1075⟩

/-- The pattern of the magnitude of `x`. -/
def pattern (x : Float) : Nat := x.toBits.toNat % Nat.pow 2 63

/-- Whether the sign bit of `x` is set, as it is for `-0.0`. -/
def isNegative (x : Float) : Bool := Nat.pow 2 63 ≤ x.toBits.toNat

/-- The number with the given sign and magnitude. -/
def ofPattern (negative : Bool) (b : Nat) : Float :=
  Float.ofBits (UInt64.ofNat (if negative then Nat.pow 2 63 + b else b))

/-- What a number is. -/
inductive Datum where
  | finite (negative : Bool) (b : Nat)
  | infinite (negative : Bool)
  | nan
  deriving DecidableEq

/-- Take a number apart. -/
def datum (x : Float) : Datum :=
  if pattern x < infinityPattern then .finite (isNegative x) (pattern x)
  else if pattern x = infinityPattern then .infinite (isNegative x)
  else .nan

/-! ### Rounding -/

/-- `num / den` rounded to a whole number, a tie to the even one. -/
def roundDiv (num den : Nat) : Nat :=
  let q := num / den
  let r := num % den
  if 2 * r < den ∨ (2 * r = den ∧ q % 2 = 0) then q else q + 1

/-- The fraction `num / den` divided by `base ^ e`, again as a fraction. -/
def scale (base num den : Nat) (e : Int) : Nat × Nat :=
  if 0 ≤ e then (num, den * Nat.pow base e.toNat) else (num * Nat.pow base (-e).toNat, den)

/-- The exponent of the power of two at or below a positive fraction: the
difference of the two lengths is that exponent or one more. -/
def floorLog2 (num den : Nat) : Int :=
  let l : Int := (num.log2 : Int) - (den.log2 : Int)
  let s := scale 2 num den l
  if s.2 ≤ s.1 then l else l - 1

/-- The pattern of the magnitude nearest to `num / den`, a tie to the even
pattern, and infinity for everything from halfway above the largest magnitude. -/
def nearest (num den : Nat) : Nat :=
  if num = 0 then 0
  else
    let e := max (-1074) (floorLog2 num den - 52)
    let s := scale 2 num den e
    min infinityPattern ((e + 1074).toNat * Nat.pow 2 52 + roundDiv s.1 s.2)

/-! ### Exact values -/

/-- A magnitude as a fraction. -/
def Dyadic.ratio (d : Dyadic) : Nat × Nat :=
  if 0 ≤ d.exponent then (d.significand * Nat.pow 2 d.exponent.toNat, 1)
  else (d.significand, Nat.pow 2 (-d.exponent).toNat)

/-- The whole number a finite number truncates to, toward zero. -/
def truncate? (x : Float) : Option Int :=
  match datum x with
  | .finite negative b =>
      let r := (Dyadic.ofPattern b).ratio
      let n : Int := ((r.1 / r.2 : Nat) : Int)
      some (if negative then -n else n)
  | .infinite _ => none
  | .nan => none

end FrameLisp.Number
