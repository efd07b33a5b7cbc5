import FeedDesk.Text.Ascii
import FeedDesk.Json.Record

/-!
# Item status and status filters

The server gives each item a status. A view shows the items of one status, or all items; an item
whose status the server did not give, or gave in a word of its own, is shown among all items only.
-/
namespace FeedDesk

inductive ItemStatus where
  | backlog
  | fetched
  | new
  | unknown
  deriving DecidableEq, Repr, Inhabited

namespace ItemStatus

/-- The word for a status, on the wire and in the table. -/
def label : ItemStatus → String
  | backlog => "BACKLOG"
  | fetched => "FETCHED"
  | new => "NEW"
  | unknown => "UNKNOWN"

/-- The status that a word names; a word that names none stands for an unknown status. -/
def ofLabel (word : String) : ItemStatus :=
  if word = "BACKLOG" then backlog
  else if word = "FETCHED" then fetched
  else if word = "NEW" then new
  else unknown

/-- A status is given by its word, alone or as the name of the only member, which is null. -/
def ofJson? : Json → Option ItemStatus
  | .text content => content.map ofLabel
  | .object [(some word, .null)] => some (ofLabel word)
  | _ => none

theorem ofLabel_label (s : ItemStatus) : ofLabel s.label = s := by
  cases s <;> decide

end ItemStatus

inductive StatusFilter where
  | all
  | new
  | fetched
  | backlog
  deriving DecidableEq, Repr, Inhabited

namespace StatusFilter

def label : StatusFilter → String
  | all => "ALL"
  | new => "NEW"
  | fetched => "FETCHED"
  | backlog => "BACKLOG"

def shows : StatusFilter → ItemStatus → Bool
  | all, _ => true
  | new, s => s == .new
  | fetched, s => s == .fetched
  | backlog, s => s == .backlog

/-- The filter that a word names, in any letter case. -/
def ofWord? (word : String) : Option StatusFilter :=
  let w := Text.upper word
  if w = "ALL" then some all
  else if w = "NEW" then some new
  else if w = "FETCHED" then some fetched
  else if w = "BACKLOG" then some backlog
  else none

def unknownWord (word : String) : String :=
  "unknown status filter '" ++ Text.lower word ++ "' (expected all, new, fetched or backlog)"

end StatusFilter

end FeedDesk
