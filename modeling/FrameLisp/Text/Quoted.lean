/-
FrameLisp/Text/Quoted.lean

Quoted text: a text written between quotes so that every character of it can be
seen.

Single quotes are used unless the text has a single quote and no double one.
Inside, the backslash and the quote in use are escaped, and so is every character
that cannot be printed: line feed, carriage return and tab by a letter, the others
by their code in hexadecimal.
-/
import FrameLisp.Text.Printable

namespace FrameLisp.Text

/-! ### Escapes -/

/-- A number in lower-case hexadecimal, padded with zeros to at least `width` digits. -/
def hex (width n : Nat) : List Char :=
  let ds := Nat.toDigits 16 n
  List.replicate (width - ds.length) '0' ++ ds

/-- The escape of a character by its code: two, four or eight digits. -/
def codeEscape (c : Char) : List Char :=
  let n := c.toNat
  if n < 0x100 then '\\' :: 'x' :: hex 2 n
  else if n < 0x10000 then '\\' :: 'u' :: hex 4 n
  else '\\' :: 'U' :: hex 8 n

/-- One character as it stands between the quotes `q`. -/
def escape (q c : Char) : List Char :=
  if c = q ∨ c = '\\' then ['\\', c]
  else if c = '\n' then ['\\', 'n']
  else if c = '\r' then ['\\', 'r']
  else if c = '\t' then ['\\', 't']
  else if isPrintable c then [c]
  else codeEscape c

/-- The quote that surrounds a text. -/
def quoteFor (cs : List Char) : Char :=
  if cs.contains '\'' && !cs.contains '"' then '"' else '\''

/-- A text between quotes. -/
def quoted (s : String) : String :=
  let cs := s.toList
  let q := quoteFor cs
  String.ofList (q :: (cs.flatMap (escape q) ++ [q]))

end FrameLisp.Text
