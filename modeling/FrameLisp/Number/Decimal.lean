/-
FrameLisp/Number/Decimal.lean

Decimal notation: the literals that programs contain and the digits that results
are written with.

A decimal is a whole number times a power of ten.  `Decimal.pattern` is the
pattern of the magnitude nearest to it, in exact arithmetic; for exponents so
large or so small that the answer is infinity or zero whatever the digits are, it
does not compute the power.

`Literal.ofToken?` accepts exactly the tokens of the form

    [+-] digits [. [digits]] [(e|E) [+-] digits]     or     [+-] . digits [...]

with the digits 0 to 9 only, and keeps sign, digits and exponent apart, so a
literal that denotes zero still has its sign.
-/
import FrameLisp.Number.Binary64

namespace FrameLisp.Number

/-! ### Decimals -/

/-- The magnitude `coefficient * 10 ^ exponent`. -/
structure Decimal where
  coefficient : Nat
  exponent : Int
  deriving DecidableEq

/-- A decimal as a fraction. -/
def Decimal.ratio (d : Decimal) : Nat × Nat :=
  if 0 ≤ d.exponent then (d.coefficient * Nat.pow 10 d.exponent.toNat, 1)
  else (d.coefficient, Nat.pow 10 (-d.exponent).toNat)

/-- The pattern of the magnitude nearest to a decimal.  A positive decimal with an
exponent above 400 is beyond every magnitude, and one whose exponent is more than
400 below minus its binary length is less than half the least magnitude. -/
def Decimal.pattern (d : Decimal) : Nat :=
  if d.coefficient = 0 then 0
  else if 400 < d.exponent then infinityPattern
  else if d.exponent < -((d.coefficient.log2 : Int) + 400) then 0
  else nearest d.ratio.1 d.ratio.2

/-! ### Digits -/

/-- The value of a digit from 0 to 9. -/
def digitValue (c : Char) : Nat := c.toNat - '0'.toNat

/-- The digit from 0 to 9 with a given value. -/
def digitChar (n : Nat) : Char := Char.ofNat ('0'.toNat + n)

/-- The number that a list of digits denotes, the first digit leading. -/
def ofDigits (ds : List Char) : Nat :=
  ds.foldl (fun n c => 10 * n + digitValue c) 0

/-- The digits of a number, the leading one first. -/
def toDigits (n : Nat) : List Char :=
  if n < 10 then [digitChar n] else toDigits (n / 10) ++ [digitChar (n % 10)]

/-- How many decimal digits a number has. -/
def digitCount (n : Nat) : Nat :=
  if n < 10 then 1 else digitCount (n / 10) + 1

/-! ### Literals -/

/-- A signed decimal as it is written in a program. -/
structure Literal where
  negative : Bool
  magnitude : Decimal
  deriving DecidableEq

/-- Take an optional sign off the front; the flag says whether it was a minus. -/
def takeSign : List Char → Bool × List Char
  | '+' :: cs => (false, cs)
  | '-' :: cs => (true, cs)
  | cs => (false, cs)

/-- Read the exponent part, which may be missing but leaves nothing behind. -/
def readExponent? : List Char → Option Int
  | [] => some 0
  | c :: cs =>
      if c = 'e' ∨ c = 'E' then
        let signed := takeSign cs
        if signed.2 ≠ [] ∧ signed.2.all Char.isDigit then
          let n : Int := ((ofDigits signed.2 : Nat) : Int)
          some (if signed.1 then -n else n)
        else none
      else none

/-- The digits after the point, and what follows them; no point, no digits. -/
def takeFraction : List Char → List Char × List Char
  | '.' :: cs => (cs.takeWhile Char.isDigit, cs.dropWhile Char.isDigit)
  | cs => ([], cs)

/-- Read a literal from its characters. -/
def Literal.ofChars? (cs : List Char) : Option Literal :=
  let signed := takeSign cs
  let whole := signed.2.takeWhile Char.isDigit
  let fraction := takeFraction (signed.2.dropWhile Char.isDigit)
  if whole = [] ∧ fraction.1 = [] then none
  else
    (readExponent? fraction.2).map fun e =>
      ⟨signed.1, ⟨ofDigits (whole ++ fraction.1), e - (fraction.1.length : Int)⟩⟩

/-- Read a literal from a whole token. -/
def Literal.ofToken? (token : String) : Option Literal :=
  Literal.ofChars? token.toList

/-- The number nearest to a literal, a tie to the even one, with the sign kept. -/
def Literal.value (l : Literal) : Float :=
  ofPattern l.negative l.magnitude.pattern

/-- The number a token denotes, if it is a literal. -/
def ofToken? (token : String) : Option Float :=
  (Literal.ofToken? token).map Literal.value

end FrameLisp.Number
