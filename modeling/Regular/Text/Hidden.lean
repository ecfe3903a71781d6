import Regular.Text.CombiningMark
import Regular.Text.Unprintable
/-!
# Hidden — the characters a reader would not see

A character is hidden when the text it stands in would not show it as a sign of its own: it is drawn onto its
neighbour, or it is not drawn at all.
-/
namespace Regular
namespace Text

/-- Whether a number lies in one of the ranges, which are closed and ascending. -/
def inRanges : List (Nat × Nat) → Nat → Bool
  | [], _ => false
  | (low, high) :: ranges, n => if n < low then false else n ≤ high || inRanges ranges n

/-- Whether a character is drawn onto its neighbour or not drawn at all. -/
def isHidden (c : Char) : Bool :=
  inRanges combiningMarks c.toNat || inRanges unprintable c.toNat || inRanges fillers c.toNat

end Text
end Regular
