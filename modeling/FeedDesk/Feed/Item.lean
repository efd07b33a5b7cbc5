import FeedDesk.Feed.Status
import FeedDesk.Json.Printer

/-!
# Feed items

An item as the server lists it, its size in both of the server's encodings, and its form on the
wire. The order of the declared members is the order of the array form and of the written form.
-/
namespace FeedDesk

open Number

/-- An item of a feed. Its address is its identity within the feed. -/
structure Item where
  url : String
  title : String := ""
  filename : String := ""
  status : ItemStatus := .unknown
  category : String := ""
  time : Int64 := 0
  sizeMb : Binary64 := .zero false
  sizeLow : UInt32 := 0
  sizeHigh : UInt32 := 0
  addCategory : String := ""
  matchKind : String := ""
  rule : Int64 := 0
  dupeKey : String := ""
  dupeScore : Int64 := 0
  dupeMode : String := ""
  deriving DecidableEq, Repr, Inhabited

namespace Item

/-- The size in bytes, joined from its two 32-bit halves. -/
def sizeBytes (item : Item) : Nat :=
  item.sizeHigh.toNat * UInt32.size + item.sizeLow.toNat

def sizeUnknown (item : Item) : Bool :=
  item.sizeMb.isNotPositive && item.sizeLow == 0 && item.sizeHigh == 0

def namesDiffer (item : Item) : Bool :=
  item.filename != item.title

def memberNames : List String :=
  ["URL", "Title", "Filename", "Status", "Category", "Time", "SizeMB", "SizeLo", "SizeHi",
    "AddCategory", "Match", "Rule", "DupeKey", "DupeScore", "DupeMode"]

/-- Half of a size is any integer of 64 bits, of which the low 32 bits count. -/
def sizeHalf? (j : Json) : Option UInt32 :=
  j.asInteger?.map fun i => UInt32.ofNat (i % Int.pow 2 32).toNat

/-- The item of a record. Only the address must be given. -/
def ofRecord? (r : Record) : Option Item := do
  pure {
    url := ← r.required "URL" Json.asString?
    title := ← r.withDefault "Title" "" Json.asString?
    filename := ← r.withDefault "Filename" "" Json.asString?
    status := ← r.withDefault "Status" .unknown ItemStatus.ofJson?
    category := ← r.withDefault "Category" "" Json.asString?
    time := ← r.withDefault "Time" 0 Json.asInt64?
    sizeMb := ← r.withDefault "SizeMB" (.zero false) Json.asBinary64?
    sizeLow := ← r.withDefault "SizeLo" 0 sizeHalf?
    sizeHigh := ← r.withDefault "SizeHi" 0 sizeHalf?
    addCategory := ← r.withDefault "AddCategory" "" Json.asString?
    matchKind := ← r.withDefault "Match" "" Json.asString?
    rule := ← r.withDefault "Rule" 0 Json.asInt64?
    dupeKey := ← r.withDefault "DupeKey" "" Json.asString?
    dupeScore := ← r.withDefault "DupeScore" 0 Json.asInt64?
    dupeMode := ← r.withDefault "DupeMode" "" Json.asString? }

def ofJson? (j : Json) : Option Item :=
  (Record.ofJson? memberNames j).bind ofRecord?

def toJson (item : Item) : Json :=
  .ofMembers [
    ("URL", .ofString item.url),
    ("Title", .ofString item.title),
    ("Filename", .ofString item.filename),
    ("Status", .ofString item.status.label),
    ("Category", .ofString item.category),
    ("Time", .ofInt item.time.toInt),
    ("SizeMB", .ofBinary64 item.sizeMb),
    ("SizeLo", .ofNat item.sizeLow.toNat),
    ("SizeHi", .ofNat item.sizeHigh.toNat),
    ("AddCategory", .ofString item.addCategory),
    ("Match", .ofString item.matchKind),
    ("Rule", .ofInt item.rule.toInt),
    ("DupeKey", .ofString item.dupeKey),
    ("DupeScore", .ofInt item.dupeScore.toInt),
    ("DupeMode", .ofString item.dupeMode)]

def listOfJson? (j : Json) : Option (List Item) := j.asList? ofJson?

def listToJson (items : List Item) : Json := .array (items.map toJson)

end Item

/-- The first address that an item shares with one before it, looked for among those not yet
seen. -/
def duplicateUrlAfter (seen : List String) : List Item → Option String
  | [] => none
  | item :: items =>
    if seen.contains item.url then some item.url else duplicateUrlAfter (item.url :: seen) items

/-- The address of the first item that has the address of an earlier one. -/
def duplicateUrl (items : List Item) : Option String := duplicateUrlAfter [] items

end FeedDesk
