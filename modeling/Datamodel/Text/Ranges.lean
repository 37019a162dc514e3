/-! Searching a table of ranges. -/

namespace Datamodel.Text

/-- Whether `n` is in one of the ranges at the positions from `lo` to before `hi`. The ranges are in
increasing order, so half of the positions fall away at each step. -/
def inRanges (ranges : Array (Nat × Nat)) (n lo hi : Nat) : Bool :=
  if lo < hi then
    let mid := (lo + hi) / 2
    match ranges[mid]? with
    | none => false
    | some (first, last) =>
      if n < first then inRanges ranges n lo mid
      else if last < n then inRanges ranges n (mid + 1) hi
      else true
  else false
termination_by hi - lo

end Datamodel.Text
