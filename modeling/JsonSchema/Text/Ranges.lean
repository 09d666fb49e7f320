/-!
# Character ranges

A class of characters beyond ASCII is a table of closed ranges of code points, in increasing order.
-/

namespace JsonSchema.Text

/-- Whether a code point lies in one of the ranges. -/
def inRanges (ranges : List (Nat × Nat)) (code : Nat) : Bool :=
  ranges.any fun (first, last) => first ≤ code && code ≤ last

end JsonSchema.Text
