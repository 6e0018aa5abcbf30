/-!
# Ascending ranges of code points

A character class of the Unicode standard is listed as closed ranges in ascending order.  The
search stops at the first range that begins above the code point looked for.
-/

namespace Stencil.Text

/-- A class of characters: first and last code points of its ranges, in ascending order. -/
abbrev CodeRanges := List (Nat × Nat)

namespace CodeRanges

/-- Whether a code point lies in one of the ranges. -/
def contains (code : Nat) : CodeRanges → Bool
  | [] => false
  | (first, last) :: ranges =>
      if code < first then false
      else if code ≤ last then true
      else contains code ranges

theorem contains_of_le_le {code first last : Nat} {ranges : CodeRanges}
    (above : first ≤ code) (below : code ≤ last) :
    contains code ((first, last) :: ranges) = true := by
  simp [contains, Nat.not_lt.mpr above, below]

theorem contains_of_lt {code first last : Nat} {ranges : CodeRanges} (above : last < code)
    (ordered : first ≤ last) :
    contains code ((first, last) :: ranges) = contains code ranges := by
  have notBelow : ¬ code < first := by omega
  have notWithin : ¬ code ≤ last := by omega
  simp [contains, notBelow, notWithin]

end CodeRanges

end Stencil.Text
