import FeedDesk.Number.Binary64

/-!
# Shortest decimal digits

The decimal digits of a binary64 number are the fewest that read back as the same number, and of
those the nearest to it. The search looks, for one digit after the other, at the two points of
the decimal grid next to the exact value.
-/
namespace FeedDesk.Number

/-- The greatest `k` with `10 ^ k ≤ num / den`, for a positive quotient. -/
def leadingDecimal (num den : Nat) : Int :=
  let k : Int := ((Nat.toDigits 10 num).length : Int) - (Nat.toDigits 10 den).length
  if 0 ≤ k then (if den * Nat.pow 10 k.toNat ≤ num then k else k - 1)
  else (if den ≤ num * Nat.pow 10 (-k).toNat then k else k - 1)

/-- The numbers around `significand · 2 ^ exponent` that are read as this number: the bounds are
quarters of a unit of the last binary place, and belong to it if the significand is even. -/
structure ReadingInterval where
  low : Nat × Nat
  high : Nat × Nat
  closed : Bool

/-- The interval of a positive finite number. Below a power of two the gap is half as wide. -/
def ReadingInterval.of (m : Nat) (e : Int) : ReadingInterval :=
  let narrow := m == Nat.pow 2 52 && decide (Binary64.minExponent < e)
  { low := Binary64.ratio (4 * m - (if narrow then 1 else 2)) (e - 2)
    high := Binary64.ratio (4 * m + 2) (e - 2)
    closed := m % 2 == 0 }

def ReadingInterval.holds (i : ReadingInterval) (num den : Nat) : Bool :=
  if i.closed then
    decide (i.low.1 * den ≤ num * i.low.2) && decide (num * i.high.2 ≤ i.high.1 * den)
  else
    decide (i.low.1 * den < num * i.low.2) && decide (num * i.high.2 < i.high.1 * den)

def gridPoint (digits : Nat) (power : Int) : Nat × Nat :=
  if 0 ≤ power then (digits * Nat.pow 10 power.toNat, 1)
  else (digits, Nat.pow 10 (-power).toNat)

/-- The point of the grid of step `10 ^ power` that reads back, the nearer one if both do. -/
def pointOnGrid (i : ReadingInterval) (num den : Nat) (power : Int) : Option Nat :=
  let (p, q) := gridPoint 1 power
  let below := num * q / (den * p)
  let near := roundHalfEven (num * q) (den * p)
  let far := if near = below then below + 1 else below
  let readsBack (d : Nat) : Bool := let (a, b) := gridPoint d power; i.holds a b
  if readsBack near then some near else if readsBack far then some far else none

/-- The first grid, from the coarsest to seventeen digits, on which a point reads back. -/
def searchGrids (i : ReadingInterval) (num den : Nat) : Nat → Int → Nat × Int
  | 0, power => (roundHalfEven (num * (gridPoint 1 power).2) (den * (gridPoint 1 power).1), power)
  | n + 1, power =>
    match pointOnGrid i num den power with
    | some d => (d, power)
    | none => searchGrids i num den n (power - 1)

/-- The shortest digits of a positive finite number, as a number, and the power of ten of the
last of them. -/
def shortest (m : Nat) (e : Int) : Nat × Int :=
  let (num, den) := Binary64.ratio m e
  searchGrids (ReadingInterval.of m e) num den 16 (leadingDecimal num den)

end FeedDesk.Number
