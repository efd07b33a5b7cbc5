/-!
# Punycode

The ASCII form of a domain label with other characters, as RFC 3492 defines it. Only the reading
direction is needed: a label that announces this form has to be readable.
-/
namespace FeedDesk.Url.Punycode

def digit? (c : Char) : Option Nat :=
  if 'a' ≤ c && c ≤ 'z' then some (c.toNat - 'a'.toNat)
  else if '0' ≤ c && c ≤ '9' then some (c.toNat - '0'.toNat + 26)
  else none

/-- The least digit that continues a number at place `k`. -/
def threshold (k bias : Nat) : Nat :=
  if k ≤ bias then 1 else if bias + 26 ≤ k then 26 else k - bias

/-- A number of variable length: the value added to `i`, and what follows the number. -/
def number? (bias : Nat) : List Char → Nat → Nat → Nat → Option (Nat × List Char)
  | [], _, _, _ => none
  | c :: rest, k, weight, i =>
    match digit? c with
    | none => none
    | some d =>
      if d < threshold k bias then some (i + d * weight, rest)
      else number? bias rest (k + 36) (weight * (36 - threshold k bias)) (i + d * weight)

/-- Brings a distance into the range that a bias is computed from, counting the steps. -/
def shrink (delta k : Nat) : Nat × Nat :=
  if 455 < delta then shrink (delta / 35) (k + 36) else (delta, k)
termination_by delta
decreasing_by exact Nat.div_lt_self (by omega) (by omega)

/-- The bias after a distance, in a text that then has `points` characters. -/
def adapt (delta points : Nat) (first : Bool) : Nat :=
  let d := if first then delta / 700 else delta / 2
  let (d, k) := shrink (d + d / points) 0
  k + 36 * d / (d + 38)

/-- Puts one character after the other into the text read so far. The fuel bounds their number. -/
def insertAll : Nat → Nat → Nat → Nat → List Char → List Char → Option (List Char)
  | _, _, _, _, out, [] => some out
  | 0, _, _, _, _, _ => none
  | fuel + 1, bias, n, i, out, cs =>
    match number? bias cs 36 1 i with
    | none => none
    | some (j, rest) =>
      let points := out.length + 1
      let code := n + j / points
      if Nat.isValidChar code then
        insertAll fuel (adapt (j - i) points (i == 0)) code (j % points + 1)
          (out.insertIdx (j % points) (Char.ofNat code)) rest
      else none

def splitLastHyphen (cs : List Char) : List Char × List Char :=
  let ext := (cs.reverse.takeWhile (· != '-')).reverse
  (cs.take (cs.length - ext.length - 1), ext)

def decode? (cs : List Char) : Option (List Char) :=
  let (basic, ext) := splitLastHyphen cs
  insertAll ext.length 72 128 0 basic ext

def isAnnounced (label : List Char) : Bool := label.take 4 == ['x', 'n', '-', '-']

/-- Whether a label that announces Punycode stands for a text that needs it. -/
def isReadable (label : List Char) : Bool :=
  (decode? (label.drop 4)).any fun cs => cs.any fun c => '\x7f' < c

end FeedDesk.Url.Punycode
