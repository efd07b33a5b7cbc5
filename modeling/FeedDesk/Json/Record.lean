import FeedDesk.Json.Basic

/-!
# Records in JSON

A record has declared members. It is given as an object, where unknown members are passed over
and no declared member may come twice, or as an array of the leading members in declared order.
Once it is read, only the declared members are left, each at most once.
-/
namespace FeedDesk

/-- The declared members that a document gives, each at most once. -/
structure Record where
  members : List (String × Json)
  deriving Inhabited

namespace Record

/-- Keeps the declared ones of an object's members; every name must be text. -/
def known (declared : List String) :
    List (Option String × Json) → Option (List (String × Json))
  | [] => some []
  | (none, _) :: _ => none
  | (some name, v) :: ms =>
    (known declared ms).map fun rest =>
      if declared.contains name then (name, v) :: rest else rest

/-- A record from a document, if it has one of the two forms. -/
def ofJson? (declared : List String) : Json → Option Record
  | .array vs =>
    if vs.length ≤ declared.length then some ⟨declared.zip vs⟩ else none
  | .object ms =>
    (known declared ms).bind fun kept =>
      if (kept.map Prod.fst).Nodup then some ⟨kept⟩ else none
  | _ => none

def get? (r : Record) (name : String) : Option Json := r.members.lookup name

def required {α : Type} (r : Record) (name : String) (read : Json → Option α) : Option α :=
  (r.get? name).bind read

/-- A member that has a default, and must be readable if it is given. -/
def withDefault {α : Type} (r : Record) (name : String) (default : α) (read : Json → Option α) :
    Option α :=
  match r.get? name with
  | none => some default
  | some v => read v

end Record

namespace Json

def asString? : Json → Option String
  | .text content => content
  | _ => none

def asBool? : Json → Option Bool
  | .bool b => some b
  | _ => none

/-- An integer of 64 bits, signed or unsigned. -/
def asInteger? : Json → Option Int
  | .number n =>
    match n.value? with
    | some (.integer i) => some i
    | _ => none
  | _ => none

def asInt64? (j : Json) : Option Int64 :=
  (j.asInteger?.filter fun i => decide (i < Int.pow 2 63)).map Int64.ofInt

/-- Any number, rounded to the binary64 format. -/
def asBinary64? : Json → Option Number.Binary64
  | .number n => n.real?
  | _ => none

def asList? {α : Type} (read : Json → Option α) : Json → Option (List α)
  | .array vs => vs.mapM read
  | _ => none

mutual

/-- Whether a document can be held as a value: its nesting is at most `depth`, its texts are
text, and its numbers are in range. -/
def isHoldable : Nat → Json → Bool
  | _, .null => true
  | _, .bool _ => true
  | _, .number n => n.value?.isSome
  | _, .text t => t.isSome
  | 0, .array _ => false
  | d + 1, .array vs => areHoldable d vs
  | 0, .object _ => false
  | d + 1, .object ms => membersHoldable d ms

def areHoldable : Nat → List Json → Bool
  | _, [] => true
  | d, v :: vs => isHoldable d v && areHoldable d vs

def membersHoldable : Nat → List (Option String × Json) → Bool
  | _, [] => true
  | d, (name, v) :: ms => name.isSome && isHoldable d v && membersHoldable d ms

end

end Json

end FeedDesk
