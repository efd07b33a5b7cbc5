import FeedDesk.Number.FromDecimal
import FeedDesk.Number.Shortest

/-!
# JSON documents

A document keeps what its text says as far as a reader may depend on it: members in order and
with repetitions, numbers as they are spelled, and whether the escapes of a text denote Unicode
text at all.
-/
namespace FeedDesk

/-- A number as it is spelled: digits before the point, digits behind it (none without a point),
and the power of ten, if one is given. -/
structure NumberLiteral where
  negative : Bool
  whole : List Nat
  fraction : List Nat
  power : Option Int
  deriving DecidableEq, Repr

/-- A JSON document. A text with an unpaired surrogate escape has no content. -/
inductive Json where
  | null
  | bool (value : Bool)
  | number (literal : NumberLiteral)
  | text (content : Option String)
  | array (elements : List Json)
  | object (members : List (Option String × Json))
  deriving Repr, Inhabited

/-- What a number denotes: an integer of 64 bits, signed or unsigned, or a binary64 number. -/
inductive JsonNumber where
  | integer (value : Int)
  | real (value : Number.Binary64)
  deriving DecidableEq, Repr

namespace NumberLiteral

open Number

def real? (n : NumberLiteral) : Option Binary64 :=
  ofDecimal? n.negative n.whole n.fraction (n.power.getD 0)

/-- Plain digits denote an integer if 64 bits can hold it, and minus zero does not count as one.
All else denotes a binary64 number. -/
def value? (n : NumberLiteral) : Option JsonNumber :=
  let magnitude := ofDigits 0 n.whole
  let plain := n.fraction.isEmpty && n.power.isNone
  if plain && !n.negative && magnitude < UInt64.size then some (.integer magnitude)
  else if plain && n.negative && 0 < magnitude && magnitude ≤ Nat.pow 2 63 then
    some (.integer (-(magnitude : Int)))
  else n.real?.map .real

def ofInt (i : Int) : NumberLiteral :=
  ⟨i < 0, digitsOf i.natAbs, [], none⟩

/-- Decimals are written with a point and at least one digit behind it, from `0.00001` up to
sixteen digits before the point; further out, with a power of ten. -/
def layout (negative : Bool) (digits : List Nat) (lead : Int) : NumberLiteral :=
  if 0 ≤ lead ∧ lead < 16 then
    let whole := digits.take (lead.toNat + 1)
    let fraction := digits.drop (lead.toNat + 1)
    ⟨negative, whole ++ List.replicate (lead.toNat + 1 - whole.length) 0,
      if fraction.isEmpty then [0] else fraction, none⟩
  else if -5 ≤ lead ∧ lead < 0 then
    ⟨negative, [0], List.replicate (-lead - 1).toNat 0 ++ digits, none⟩
  else ⟨negative, digits.take 1, digits.drop 1, some lead⟩

/-- The literal of a binary64 number; infinities and the undefined number have none. -/
def ofBinary64? : Binary64 → Option NumberLiteral
  | .finite s m e =>
    if m = 0 then some ⟨s, [0], [0], none⟩
    else
      let (d, power) := shortest m e
      let all := digitsOf d
      let digits := (all.reverse.dropWhile (· == 0)).reverse
      some (layout s digits (power + all.length - 1))
  | _ => none

end NumberLiteral

namespace Json

def ofString (s : String) : Json := .text (some s)

def ofInt (i : Int) : Json := .number (.ofInt i)

def ofNat (n : Nat) : Json := ofInt n

/-- A document that is a binary64 number, or null for a number without a literal. -/
def ofBinary64 (x : Number.Binary64) : Json :=
  match NumberLiteral.ofBinary64? x with
  | some n => .number n
  | none => .null

def ofMembers (members : List (String × Json)) : Json :=
  .object (members.map fun m => (some m.1, m.2))

end Json

end FeedDesk
