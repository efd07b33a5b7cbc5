import FeedDesk.Feed.Item
import FeedDesk.Feed.Age
import FeedDesk.Feed.Size
import FeedDesk.Text.SoftBreak

/-!
# What a view shows of its items

A projection is the table of a view: a row for each item that the filter shows, the number of
items of each status over all items, and whether some item goes by two names. It is computed
from the items anew on every change.
-/
namespace FeedDesk

/-- Which of an item's names the table shows. -/
inductive Naming where
  | title
  | filename
  deriving DecidableEq, Repr, Inhabited

namespace Naming

def nameOf : Naming → Item → String
  | title, item => item.title
  | filename, item => item.filename

def header : Naming → String
  | title => "Title"
  | filename => "Filename"

end Naming

/-- The clock that ages are told by, and the operator's zone in hours. -/
structure Clock where
  now : Int64
  zone : Int32
  deriving DecidableEq, Repr, Inhabited

structure StatusCounts where
  new : Nat := 0
  fetched : Nat := 0
  backlog : Nat := 0
  deriving DecidableEq, Repr, Inhabited

namespace StatusCounts

def all (c : StatusCounts) : Nat := c.new + c.fetched + c.backlog

def badge (c : StatusCounts) : StatusFilter → Nat
  | .all => c.all
  | .new => c.new
  | .fetched => c.fetched
  | .backlog => c.backlog

def ofItems (items : List Item) : StatusCounts where
  new := items.countP (·.status == .new)
  fetched := items.countP (·.status == .fetched)
  backlog := items.countP (·.status == .backlog)

end StatusCounts

structure Row where
  id : String
  status : String
  name : String
  category : String
  age : String
  size : String
  search : String
  deriving DecidableEq, Repr, Inhabited

structure Projection where
  rows : List Row
  counts : StatusCounts
  namesDiffer : Bool
  filter : StatusFilter
  naming : Naming
  deriving DecidableEq, Repr, Inhabited

/-- The size column of an item: empty if the feed did not say. -/
def Item.sizeText (item : Item) : String :=
  if item.sizeUnknown then "" else Size.text item.sizeMb item.sizeBytes

/-- The row of an item. It is searched by its status, unbroken name, category, age and size. -/
def Row.ofItem (naming : Naming) (clock : Clock) (item : Item) : Row :=
  let name := naming.nameOf item
  let age := Age.text item.time clock.zone clock.now
  { id := item.url
    status := item.status.label
    name := Text.withSoftBreaks name
    category := item.category
    age := age
    size := item.sizeText
    search := item.status.label ++ " " ++ name ++ " " ++ item.category ++ " " ++ age ++ " "
      ++ item.sizeText }

namespace Projection

def ofItems (items : List Item) (filter : StatusFilter) (naming : Naming) (clock : Clock) :
    Projection where
  rows := (items.filter fun item => filter.shows item.status).map (Row.ofItem naming clock)
  counts := .ofItems items
  namesDiffer := items.any Item.namesDiffer
  filter := filter
  naming := naming

def ids (p : Projection) : List String := p.rows.map Row.id

def needsPager (p : Projection) (pageSize : Nat) : Bool := decide (pageSize < p.rows.length)

end Projection

/-- What a session remembers of its first projection: whether names differed. -/
abbrev NamesLatch := Option Bool

namespace NamesLatch

def set (latch : NamesLatch) (computed : Bool) : NamesLatch :=
  some (latch.getD computed)

end NamesLatch

/-- The table of some items, with the remembered answer to whether names differ, and the latch
afterwards. -/
def Projection.latched (latch : NamesLatch) (items : List Item) (filter : StatusFilter)
    (naming : Naming) (clock : Clock) : Projection × NamesLatch :=
  let p := Projection.ofItems items filter naming clock
  ({ p with namesDiffer := latch.getD p.namesDiffer }, latch.set p.namesDiffer)

end FeedDesk
