import FeedDesk.Feed.Item
import FeedDesk.Text.Extension

/-!
# Jobs

A job is an item on its way to the server's download queue. The jobs of a selection follow the
order of the items, whatever the order in which these were checked, and there is at least one.
-/
namespace FeedDesk

structure Job where
  url : String
  name : String
  title : String
  deriving DecidableEq, Repr, Inhabited

/-- The job of an item. Its name carries the extension of queued items. -/
def Job.ofItem (item : Item) : Job where
  url := item.url
  name := Text.ensureNzbExtension item.filename
  title := item.title

/-- The jobs of a batch, of which there is a first. -/
structure JobQueue where
  head : Job
  rest : List Job
  deriving DecidableEq, Repr, Inhabited

def nothingSelected : String := "No items selected"

namespace JobQueue

def toList (q : JobQueue) : List Job := q.head :: q.rest

def size (q : JobQueue) : Nat := q.toList.length

def ofList? : List Job → Option JobQueue
  | [] => none
  | job :: jobs => some ⟨job, jobs⟩

def selected (items : List Item) (checked : List String) : List Item :=
  items.filter fun item => checked.contains item.url

/-- The queue of the checked items, if there are any. -/
def ofSelection? (items : List Item) (checked : List String) : Option JobQueue :=
  ofList? ((selected items checked).map Job.ofItem)

end JobQueue

end FeedDesk
