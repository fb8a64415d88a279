import RunLedger.Failure
import RunLedger.Decimal.Shortest

/-!
# Nearest ranks

The percentile `p` of `n` ascending values is the value at the nearest rank: the least rank that is
at least `p / 100 · n`, but not below the first nor above the last. It is computed in double
precision: the quotient and the product are both rounded.
-/

set_option autoImplicit false

namespace RunLedger.NearestRank

/-- The least whole number that is not below a given number, as far as 64 bits go; zero if the
number is negative or no number. -/
def ceiling (value : Float) : Nat :=
  let whole := value.toUInt64
  if whole.toFloat < value then whole.toNat + 1 else whole.toNat

/-- The place, from zero, of a percentile among `count` ascending values, of which there is at least
one. -/
def index (percentile : Float) (count : Nat) : Nat :=
  min (max (ceiling (percentile / 100 * (UInt64.ofNat count).toFloat)) 1) count - 1

/-- Whether a percentile is a number from 0 to 100. -/
def isPercentile (percentile : Float) : Bool :=
  percentile.isFinite && !(percentile < 0) && !(percentile > 100)

/-- Refuses the first percentile that is no number from 0 to 100. -/
def checkPercentiles : List Float → Except Failure Unit
  | [] => .ok ()
  | percentile :: rest =>
    if isPercentile percentile then checkPercentiles rest
    else .error (.invalidInput (.percentileOutOfRange (Decimal.shortest percentile)))

end RunLedger.NearestRank
