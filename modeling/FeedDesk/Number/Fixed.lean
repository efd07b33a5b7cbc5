import FeedDesk.Number.Rounding

/-!
# Numbers with a fixed count of decimal places

A quotient of natural numbers is written with a given number of places behind the point. The
last place is rounded on the exact value; a half goes to the even digit.
-/
namespace FeedDesk.Number

/-- `num / den` in units of the last of `places` decimal places. -/
def scaledRound (places num den : Nat) : Nat :=
  roundHalfEven (num * Nat.pow 10 places) den

def lastDigits (width n : Nat) : List Char :=
  let ds := Nat.toDigits 10 (n % Nat.pow 10 width)
  List.replicate (width - ds.length) '0' ++ ds

/-- A whole number of units of the last place, with the point put in. -/
def placePoint (places units : Nat) : List Char :=
  let whole := Nat.toDigits 10 (units / Nat.pow 10 places)
  if places = 0 then whole else whole ++ '.' :: lastDigits places units

def fixed (places : Nat) (negative : Bool) (num den : Nat) : List Char :=
  (if negative then ['-'] else []) ++ placePoint places (scaledRound places num den)

end FeedDesk.Number
