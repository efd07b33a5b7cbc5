import FeedDesk.Number.Binary64

/-!
# Ages of items

The time since an item appeared, in minutes, hours or days. Times are seconds in signed 64 bits
and stop at the ends of that range. The number of units is the binary64 quotient, rounded with
halves upwards; below 2⁵³ seconds this is the rounding of the exact quotient.
-/
namespace FeedDesk

open Number

def leastInt64 : Int := -Int.pow 2 63

def greatestInt64 : Int := Int.pow 2 63 - 1

/-- The number of signed 64 bits nearest to an integer. -/
def saturate (i : Int) : Int := max leastInt64 (min greatestInt64 i)

namespace Age

inductive Scale where
  | minutes
  | hours
  | days
  deriving DecidableEq, Repr

def Scale.seconds : Scale → Nat
  | minutes => 60
  | hours => 3600
  | days => 86400

def Scale.letter : Scale → String
  | minutes => "m"
  | hours => "h"
  | days => "d"

/-- The seconds since a time in the operator's zone, at least zero. -/
def seconds (time : Int64) (zone : Int32) (now : Int64) : Nat :=
  (saturate (now.toInt - saturate (time.toInt + zone.toInt * 3600))).toNat

/-- More than a day is given in days, more than an hour in hours, all else in minutes. -/
def scale (seconds : Nat) : Scale :=
  if 86400 < seconds then .days else if 3600 < seconds then .hours else .minutes

def count (seconds : Nat) (unit : Scale) : Nat :=
  match Binary64.ofNat seconds with
  | .finite _ m e =>
    let (num, den) := Binary64.ratio m e
    match Binary64.ofRatio false num (den * unit.seconds) with
    | .finite _ m e => let (num, den) := Binary64.ratio m e; roundHalfUp num den
    | _ => 0
  | _ => 0

/-- The age of an item; an item without a time has none. -/
def text (time : Int64) (zone : Int32) (now : Int64) : String :=
  if time = 0 then ""
  else
    let s := seconds time zone now
    Nat.repr (count s (scale s)) ++ " " ++ (scale s).letter

end Age

end FeedDesk
