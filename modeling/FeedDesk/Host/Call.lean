import FeedDesk.Feed.Projection

/-!
# Calls to the host

The host shows the view: a table, a title, controls and messages. It hears what to show as a
sequence of calls, which are plain data.
-/
namespace FeedDesk

inductive Notice where
  | refreshStarted
  | selectItems
  | fetched (count : Nat)
  deriving DecidableEq, Repr

def Notice.text : Notice → String
  | refreshStarted => "Fetching all feeds"
  | selectItems => "Please select items first"
  | fetched 1 => "1 item added to queue"
  | fetched count => Nat.repr count ++ " items added to queue"

/-- A call to the host. -/
inductive HostCall where
  | pauseRefresh
  | resumeRefresh
  | notify (notice : Notice)
  | alert (title message : String)
  | table (projection : Projection) (pagerVisible : Bool)
  | clearTable
  | title (text : String)
  | loading (shown : Bool)
  | page (number : Nat)
  | controls (enabled : Bool)
  | transmit (visible : Bool)
  | progress (done total : Nat)
  deriving DecidableEq, Repr

end FeedDesk
