/-
FrameLisp/Number/Integer.lean

Whole numbers as they are written in a setting.

The text may have blanks around it, then one sign, then digits with single
underscores between them.  The digits may be of any script and the scripts may be
mixed.  A number has at most `maxDigits` digits, leading zeros counted.
-/
import FrameLisp.Number.Decimal
import FrameLisp.Text.Blank

namespace FrameLisp.Number

/-! ### Digits of any script -/

/-- The codes of the zeros of all scripts; the other digits of a script follow its
zero in order. -/
def zeroCodes : List Nat :=
  [0x30, 0x660, 0x6F0, 0x7C0, 0x966, 0x9E6, 0xA66, 0xAE6, 0xB66, 0xBE6, 0xC66, 0xCE6, 0xD66,
   0xDE6, 0xE50, 0xED0, 0xF20, 0x1040, 0x1090, 0x17E0, 0x1810, 0x1946, 0x19D0, 0x1A80, 0x1A90,
   0x1B50, 0x1BB0, 0x1C40, 0x1C50, 0xA620, 0xA8D0, 0xA900, 0xA9D0, 0xA9F0, 0xAA50, 0xABF0, 0xFF10,
   0x104A0, 0x10D30, 0x11066, 0x110F0, 0x11136, 0x111D0, 0x112F0, 0x11450, 0x114D0, 0x11650,
   0x116C0, 0x11730, 0x118E0, 0x11950, 0x11C50, 0x11D50, 0x11DA0, 0x16A60, 0x16AC0, 0x16B50,
   0x1D7CE, 0x1D7D8, 0x1D7E2, 0x1D7EC, 0x1D7F6, 0x1E140, 0x1E2F0, 0x1E950, 0x1FBF0]

/-- The value of a decimal digit of any script. -/
def decimalDigit? (c : Char) : Option Nat :=
  (zeroCodes.find? fun z => z ≤ c.toNat && c.toNat ≤ z + 9).map (c.toNat - ·)

/-! ### Numbers -/

/-- The longest number that is read. -/
def maxDigits : Nat := 4300

/-- The blanks that may surround a number: all but the four information separators. -/
def isPadding (c : Char) : Bool :=
  Text.isBlank c && !(0x1C ≤ c.toNat && c.toNat ≤ 0x1F)

/-- Read digits with single underscores between them.  The flag says whether an
underscore may come next, which is so right after a digit; the values read so far
are in `done`, last one first. -/
def readDigits? (done : List Nat) (mayJoin : Bool) : List Char → Option (List Nat)
  | [] => if mayJoin then some done.reverse else none
  | c :: cs =>
      if c = '_' then
        if mayJoin then readDigits? done false cs else none
      else
        match decimalDigit? c with
        | some d => readDigits? (d :: done) true cs
        | none => none

/-- The number that digit values denote, the first one leading. -/
def ofDigitValues (ds : List Nat) : Nat := ds.foldl (fun n d => 10 * n + d) 0

/-- Read a whole number from its characters, without blanks around them. -/
def integerOfChars? (cs : List Char) : Option Int :=
  let signed := takeSign cs
  match readDigits? [] false signed.2 with
  | some ds =>
      if ds.length ≤ maxDigits then
        let n : Int := ((ofDigitValues ds : Nat) : Int)
        some (if signed.1 then -n else n)
      else none
  | none => none

/-- Read a whole number, with blanks around it allowed. -/
def integer? (s : String) : Option Int :=
  integerOfChars? ((s.toList.dropWhile isPadding).reverse.dropWhile isPadding).reverse

end FrameLisp.Number
