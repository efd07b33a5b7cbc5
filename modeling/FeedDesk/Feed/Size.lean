import FeedDesk.Number.Binary64
import FeedDesk.Number.Fixed

/-!
# Sizes of items

A size is written in megabytes or gigabytes, with fewer decimal places the larger it is. A count
of bytes is preferred to the server's number of megabytes, which is rounded.
-/
namespace FeedDesk.Size

open Number

/-- How sizes of one range are written: the unit, its megabytes, and the decimal places. -/
structure Band where
  places : Nat
  megabytes : Nat
  unit : String
  deriving DecidableEq, Repr

def band (mb : Binary64) : Band :=
  if mb.exceeds 10240 then ⟨1, 1024, "GB"⟩
  else if mb.exceeds 1024 then ⟨2, 1024, "GB"⟩
  else if mb.exceeds 100 then ⟨0, 1, "MB"⟩
  else if mb.exceeds 10 then ⟨1, 1, "MB"⟩
  else ⟨2, 1, "MB"⟩

def amount (b : Band) : Binary64 → String
  | .finite s m e =>
    let (num, den) := Binary64.ratio m e
    String.ofList (fixed b.places s num (den * b.megabytes))
  | .infinite s => if s then "-inf" else "inf"
  | .nan => "NaN"

def ofMegabytes (mb : Binary64) : String :=
  amount (band mb) mb ++ " " ++ (band mb).unit

/-- The megabytes of a number of bytes, which is first rounded to the binary64 format. -/
def megabytes (bytes : Nat) : Binary64 :=
  match Binary64.ofNat bytes with
  | .finite s m e => .finite s m (e - 20)
  | x => x

/-- A size from its two encodings; without a byte count the megabytes are taken if positive. -/
def text (mb : Binary64) (bytes : Nat) : String :=
  if 0 < bytes then ofMegabytes (megabytes bytes)
  else if mb.exceeds 0 then ofMegabytes mb
  else ""

end FeedDesk.Size
