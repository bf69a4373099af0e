/-
FrameLisp/Number/Shortest.lean

The shortest decimal that reads back as a given number, and the text it is
written as.

For a positive magnitude `v` with `10 ^ (k - 1) ≤ v < 10 ^ k`, the decimals with
`n` digits near `v` lie on the grid of multiples of `10 ^ (k - n)`.  `shortest`
goes through the grids from `n = 1` on and stops at the first on which one of the
two neighbours of `v` reads back as `v`; of two that do it takes the nearer one, a
tie to the even digit.  The magnitudes that read back as `v` form an interval
around `v`, so a grid that has such a point at all has one among the neighbours.
`v` itself is a decimal of at most 767 digits, so the search ends.

`text` writes that decimal positionally when its leading digit stands for a power
of ten from `10 ^ (-4)` to `10 ^ 15`, and with an exponent otherwise.
-/
import FrameLisp.Number.Decimal

namespace FrameLisp.Number

/-! ### The shortest decimal -/

/-- The number `k` with `10 ^ (k - 1) ≤ num / den < 10 ^ k`, for fractions above
`10 ^ (-400)`.  From one on, it counts the digits before the point; a fraction below
one is scaled up first, which gives it 400 more of them. -/
def leadingPlace (num den : Nat) : Int :=
  if den ≤ num then digitCount (num / den)
  else (digitCount (num * Nat.pow 10 400 / den) : Int) - 400

/-- The neighbour of `num / den` on the grid of multiples of `10 ^ p` that has the
pattern `b`; the nearer one if both have. -/
def neighbour? (b num den : Nat) (p : Int) : Option Decimal :=
  let s := scale 10 num den p
  let low : Decimal := ⟨s.1 / s.2, p⟩
  let high : Decimal := ⟨s.1 / s.2 + 1, p⟩
  if low.pattern = b then
    if high.pattern = b then some ⟨roundDiv s.1 s.2, p⟩ else some low
  else if high.pattern = b then some high
  else none

/-- Search the grids below `10 ^ p`, each ten times finer than the one before. -/
def searchGrids (b num den : Nat) : Nat → Int → Decimal
  | 0, p => ⟨(scale 10 num den p).1 / (scale 10 num den p).2, p⟩
  | n + 1, p =>
      match neighbour? b num den (p - 1) with
      | some d => d
      | none => searchGrids b num den n (p - 1)

/-- Move the zeros at the end of the coefficient into the exponent. -/
def Decimal.normalize (d : Decimal) : Decimal :=
  if d.coefficient ≠ 0 ∧ d.coefficient % 10 = 0 then
    Decimal.normalize ⟨d.coefficient / 10, d.exponent + 1⟩
  else d
termination_by d.coefficient
decreasing_by omega

/-- The shortest decimal that reads back as the magnitude with pattern `b`. -/
def shortest (b : Nat) : Decimal :=
  if b = 0 then ⟨0, 0⟩
  else
    let r := (Dyadic.ofPattern b).ratio
    (searchGrids b r.1 r.2 767 (leadingPlace r.1 r.2)).normalize

/-! ### Layout -/

/-- Digits with the point put in so that the first one stands for `10 ^ place`;
a whole number ends in `.0`. -/
def positional (ds : List Char) (place : Int) : List Char :=
  if place < 0 then
    '0' :: '.' :: (List.replicate (-place - 1).toNat '0' ++ ds)
  else
    let whole := (place + 1).toNat
    if ds.length ≤ whole then
      ds ++ List.replicate (whole - ds.length) '0' ++ ['.', '0']
    else ds.take whole ++ '.' :: ds.drop whole

/-- An exponent with its sign and at least two digits. -/
def exponentText (e : Int) : List Char :=
  let ds := toDigits e.natAbs
  (if e < 0 then '-' else '+') :: (if ds.length < 2 then '0' :: ds else ds)

/-- One digit before the point, the others after it, and the exponent. -/
def scientific (ds : List Char) (place : Int) : List Char :=
  ds.take 1 ++ (if ds.length ≤ 1 then [] else '.' :: ds.drop 1) ++ 'e' :: exponentText place

/-- The text of a decimal. -/
def Decimal.layout (d : Decimal) : List Char :=
  let ds := toDigits d.coefficient
  let place := d.exponent + (ds.length : Int) - 1
  if -4 ≤ place ∧ place < 16 then positional ds place else scientific ds place

/-- The text of a number.  What is not a finite number has a name instead. -/
def text (x : Float) : String :=
  match datum x with
  | .finite negative b =>
      String.ofList ((if negative then ['-'] else []) ++ (shortest b).layout)
  | .infinite negative => if negative then "-inf" else "inf"
  | .nan => "nan"

end FrameLisp.Number
