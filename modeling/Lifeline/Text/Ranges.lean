/-!
# Tables of code points

Sorted tables of code points: ranges, which say whether a character has a property
(`Ranges.has`, by halving), and shifts, which move a run of characters by one distance
(`Shift.find?`).
-/

namespace Lifeline.Text

/-- Sorted, disjoint ranges of code points, both ends included. -/
abbrev Ranges := Array (Nat × Nat)

namespace Ranges

/-- Whether one of the ranges at the indices from `lo` up to `hi` holds `n`. -/
def hasBetween (r : Ranges) (n : Nat) (lo hi : Nat) : Bool :=
  if lo < hi then
    let mid := (lo + hi) / 2
    match r[mid]? with
    | none => false
    | some (first, last) =>
      if n < first then hasBetween r n lo mid
      else if last < n then hasBetween r n (mid + 1) hi
      else true
  else false
termination_by hi - lo
decreasing_by all_goals omega

def has (r : Ranges) (n : Nat) : Bool := r.hasBetween n 0 r.size

end Ranges

/-- The code points `first`, `first + step`, … up to `last`, each moved by `distance`. -/
structure Shift where
  first : Nat
  last : Nat
  step : Nat
  distance : Int

namespace Shift

/-- The image of `n` under the first shift that reaches it. -/
def find? (shifts : Array Shift) (n : Nat) : Option Nat :=
  (shifts.find? fun s => s.first ≤ n && n ≤ s.last && (n - s.first) % s.step == 0).map
    fun s => ((n : Int) + s.distance).toNat

end Shift

end Lifeline.Text
