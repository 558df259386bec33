import LiveTables.Text.Attaching
import LiveTables.Text.Blank

/-!
# Characters with a glyph of their own

A character is visible if it neither shows nothing nor attaches to the character in front of it.
-/

namespace LiveTables.Text

/-- Whether a character is in one of the ranges. -/
def isIn (ranges : Array (Nat × Nat)) (c : Char) : Bool :=
  ranges.any fun (first, last) => first ≤ c.toNat && c.toNat ≤ last

/-- Whether a character has a glyph of its own. -/
def isVisible (c : Char) : Bool := !isIn blankRanges c && !isIn attachingRanges c

end LiveTables.Text
