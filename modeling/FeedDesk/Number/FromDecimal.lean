import FeedDesk.Number.Binary64
import FeedDesk.Number.Decimal

/-!
# Reading decimals as binary64 numbers

A decimal is read by a quick rule. The leading digits are collected as long as they fit in
64 bits, the collected integer is rounded to a binary64 number, and this is multiplied or
divided once by a rounded power of ten. The result is exact for a decimal of up to fifteen
digits with a small exponent, and may otherwise be a neighbour of the nearest number.
-/
namespace FeedDesk.Number

def word64Limit : Nat := UInt64.size

/-- Collects digits behind `n` as long as the result fits; the digits left over are returned. -/
def absorb (n : Nat) : List Nat → Nat × List Nat
  | [] => (n, [])
  | d :: ds => if 10 * n + d < word64Limit then absorb (10 * n + d) ds else (n, d :: ds)

def greatestPower : Nat := 308

/-- Divides by `10 ^ k`, in steps no greater than the greatest finite power. -/
def divPower (x : Binary64) (k : Nat) : Binary64 :=
  match x with
  | .finite s m e =>
    if m = 0 then .zero s
    else
      match Binary64.ofNat (Nat.pow 10 (min k greatestPower)) with
      | .finite _ m' e' =>
        let y := Binary64.divRatio m e m' e'
        if greatestPower < k then divPower y (k - greatestPower) else y
      | _ => .nan
  | x => x
termination_by k
decreasing_by simp [greatestPower] at *; omega

/-- Multiplies by `10 ^ k`; nothing is returned if the product is out of range. -/
def mulPower? (x : Binary64) (k : Nat) : Option Binary64 :=
  match x with
  | .finite s m e =>
    if m = 0 then some (.zero s)
    else if greatestPower < k then none
    else
      match Binary64.ofNat (Nat.pow 10 k) with
      | .finite _ m' e' =>
        match Binary64.mulRatio m e m' e' with
        | .infinite _ => none
        | y => some y
      | _ => none
  | _ => none

/-- The number that a decimal denotes: digits before and behind the point, and a power of ten.
A decimal above the format's range denotes none; one too small for it denotes zero. -/
def ofDecimal? (negative : Bool) (whole fraction : List Nat) (power : Int) : Option Binary64 :=
  let (n, dropped) := absorb 0 whole
  let (n, left) := absorb n fraction
  let scale := power + dropped.length - ((fraction.length : Int) - left.length)
  let magnitude :=
    if 0 ≤ scale then mulPower? (Binary64.ofNat n) scale.toNat
    else some (divPower (Binary64.ofNat n) (-scale).toNat)
  magnitude.map fun x => if negative then x.neg else x

end FeedDesk.Number
