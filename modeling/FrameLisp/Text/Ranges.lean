/-
FrameLisp/Text/Ranges.lean

Classes of characters given by ranges of codes.
-/

namespace FrameLisp.Text

/-- Whether a character lies in one of the ranges, both ends of a range included. -/
def inRanges (ranges : List (Nat × Nat)) (c : Char) : Bool :=
  ranges.any fun r => r.1 ≤ c.toNat && c.toNat ≤ r.2

end FrameLisp.Text
