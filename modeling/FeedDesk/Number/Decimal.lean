/-!
# Decimal integers

Digits and their value, and the reading of a signed decimal integer that has to lie in a range.
-/
namespace FeedDesk.Number

def digitValue (c : Char) : Nat :=
  c.toNat - '0'.toNat

/-- The number that a list of digit values denotes, after the digits of `start`. -/
def ofDigits (start : Nat) (ds : List Nat) : Nat :=
  ds.foldl (fun n d => 10 * n + d) start

/-- One or more ASCII digits, and nothing else. -/
def readNat? (cs : List Char) : Option Nat :=
  if cs.isEmpty || !cs.all Char.isDigit then none else some (ofDigits 0 (cs.map digitValue))

/-- Digits behind at most one sign. -/
def readInt? : List Char → Option Int
  | '+' :: cs => (readNat? cs).map (fun n => (n : Int))
  | '-' :: cs => (readNat? cs).map (fun n => -(n : Int))
  | cs => (readNat? cs).map (fun n => (n : Int))

def readIntIn? (lo hi : Int) (cs : List Char) : Option Int :=
  (readInt? cs).filter fun n => decide (lo ≤ n ∧ n ≤ hi)

def digitsOf (n : Nat) : List Nat :=
  (Nat.toDigits 10 n).map digitValue

def digitChar (d : Nat) : Char :=
  Char.ofNat ('0'.toNat + d)

def hexValue? (c : Char) : Option Nat :=
  if '0' ≤ c && c ≤ '9' then some (c.toNat - '0'.toNat)
  else if 'a' ≤ c && c ≤ 'f' then some (c.toNat - 'a'.toNat + 10)
  else if 'A' ≤ c && c ≤ 'F' then some (c.toNat - 'A'.toNat + 10)
  else none

def readHex? (cs : List Char) : Option Nat :=
  cs.foldlM (fun n c => (hexValue? c).map (16 * n + ·)) 0

/-- A number in lower-case hexadecimal digits, with zeros in front up to a width. -/
def hexDigits (width n : Nat) : List Char :=
  let ds := Nat.toDigits 16 n
  List.replicate (width - ds.length) '0' ++ ds

end FeedDesk.Number
