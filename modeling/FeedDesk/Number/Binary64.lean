import FeedDesk.Number.Rounding

/-!
# Numbers of the binary64 format

A size in megabytes is a number of the IEEE 754 format with 64 bits. It is held decoded: a sign,
a significand of at most 53 bits and a power of two. Every operation rounds the exact quotient
of natural numbers once, so nothing here depends on the floating-point unit.
-/
namespace FeedDesk.Number

/-- A binary64 number. The finite ones are `± significand · 2 ^ exponent`. -/
inductive Binary64 where
  | finite (negative : Bool) (significand : Nat) (exponent : Int)
  | infinite (negative : Bool)
  | nan
  deriving DecidableEq, Repr, Inhabited

namespace Binary64

def minExponent : Int := -1074

def maxExponent : Int := 971

def zero (negative : Bool) : Binary64 := .finite negative 0 minExponent

/-- `m · 2 ^ e` as a quotient of natural numbers. -/
def ratio (m : Nat) (e : Int) : Nat × Nat :=
  if 0 ≤ e then (m * Nat.pow 2 e.toNat, 1) else (m, Nat.pow 2 (-e).toNat)

/-- The greatest `k` with `2 ^ k ≤ num / den`, for a positive quotient. -/
def leadingPower (num den : Nat) : Int :=
  let k : Int := (num.log2 : Int) - den.log2
  let (p, q) := ratio den k
  if p ≤ num * q then k else k - 1

/-- A significand and an exponent as a number, infinite above the format's range. -/
def pack (negative : Bool) (m : Nat) (e : Int) : Binary64 :=
  let (m, e) := if m = Nat.pow 2 53 then (Nat.pow 2 52, e + 1) else (m, e)
  if maxExponent < e then .infinite negative else .finite negative m e

/-- The number nearest to `± num / den`; a half goes to the even significand. -/
def ofRatio (negative : Bool) (num den : Nat) : Binary64 :=
  if num = 0 then zero negative
  else
    let e := max (leadingPower num den - 52) minExponent
    let (p, q) := ratio 1 e
    pack negative (roundHalfEven (num * q) (den * p)) e

def ofNat (n : Nat) : Binary64 := ofRatio false n 1

def neg : Binary64 → Binary64
  | finite s m e => finite (!s) m e
  | infinite s => infinite (!s)
  | nan => nan

def mulRatio (m : Nat) (e : Int) (m' : Nat) (e' : Int) : Binary64 :=
  let (n, d) := ratio m e
  let (n', d') := ratio m' e'
  ofRatio false (n * n') (d * d')

def divRatio (m : Nat) (e : Int) (m' : Nat) (e' : Int) : Binary64 :=
  let (n, d) := ratio m e
  let (n', d') := ratio m' e'
  ofRatio false (n * d') (d * n')

def exceeds : Binary64 → Nat → Bool
  | finite false m e, n => let (p, q) := ratio m e; decide (n * q < p)
  | infinite false, _ => true
  | _, _ => false

/-- Whether a number is zero, of either sign, or below it. -/
def isNotPositive : Binary64 → Bool
  | finite s m _ => s || m == 0
  | infinite s => s
  | nan => false

/-- The 64 bits of a number: sign, eleven bits of exponent, 52 bits of significand. -/
def toBits : Binary64 → Nat
  | finite s m e =>
    (if s then Nat.pow 2 63 else 0)
      + (if m < Nat.pow 2 52 then m else (e + 1075).toNat * Nat.pow 2 52 + (m - Nat.pow 2 52))
  | infinite s => (if s then Nat.pow 2 63 else 0) + 0x7ff0000000000000
  | nan => 0x7ff8000000000000

end Binary64

end FeedDesk.Number
