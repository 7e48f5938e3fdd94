/-!
# Character ranges

A property of characters is kept as an ascending list of closed ranges of code points.
-/

namespace Bracescript.Text

/-- Whether the code point of `c` lies in one of the ranges. -/
def inRanges (ranges : List (Nat × Nat)) (c : Char) : Bool :=
  ranges.any fun (least, most) => least ≤ c.toNat && c.toNat ≤ most

end Bracescript.Text
