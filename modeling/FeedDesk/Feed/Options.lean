import FeedDesk.Json.Printer
import FeedDesk.Json.Record
import FeedDesk.Text.Ascii

/-!
# Server options

The server keeps its settings as named options. They come as a list of entries, whose names are
looked up in any letter case and the first of which counts, or as a store of exact names.
-/
namespace FeedDesk

structure ConfigEntry where
  name : String
  value : String := ""
  deriving DecidableEq, Repr, Inhabited

namespace ConfigEntry

def memberNames : List String := ["Name", "Value"]

/-- An entry from its object form or its array form; the value may be left out. -/
def ofJson? (j : Json) : Option ConfigEntry := do
  let r ← Record.ofJson? memberNames j
  pure {
    name := ← r.required "Name" Json.asString?
    value := ← r.withDefault "Value" "" Json.asString? }

def toJson (e : ConfigEntry) : Json :=
  .ofMembers [("Name", .ofString e.name), ("Value", .ofString e.value)]

def listOfJson? (j : Json) : Option (List ConfigEntry) := j.asList? ofJson?

def listToJson (entries : List ConfigEntry) : Json := .array (entries.map toJson)

end ConfigEntry

/-- The server's options, as far as they can be asked for: the value of a name. -/
@[ext]
structure Options where
  value? : String → Option String

namespace Options

/-- Options in a list: the first entry with the name in any letter case. -/
def ofEntries (entries : List ConfigEntry) : Options where
  value? name := (entries.find? fun e => Text.eqIgnoreCase e.name name).map ConfigEntry.value

def ofStore (store : List (String × String)) : Options where
  value? name := store.lookup name

end Options

end FeedDesk
