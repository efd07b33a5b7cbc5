import FeedDesk.Dispatch.Batch
import FeedDesk.Feed.Source
import FeedDesk.Host.Call

/-!
# Sessions

A session is one opening of the view: the feed it shows, the items once they are loaded, what is
shown of them, and the batch that can be retried. It is made anew on every opening, under a token
of its own.
-/
namespace FeedDesk

/-- The identity of an opening of the view. The token zero is never given to a session. -/
structure SessionToken where
  number : UInt64
  deriving DecidableEq, Repr, Inhabited

namespace SessionToken

def initial : SessionToken := ⟨0⟩

def next (t : SessionToken) : SessionToken := ⟨t.number + 1⟩

def text (t : SessionToken) : String := "#" ++ Nat.repr t.number.toNat

end SessionToken

structure Session where
  token : SessionToken
  title : String
  items : Option (List Item) := none
  defaults : DispatchDefaults
  filter : StatusFilter := .all
  naming : Naming := .title
  latch : NamesLatch := none
  projection : Option Projection := none
  page : Nat := 1
  batch : UInt64 := 0
  transmitVisible : Bool := false
  pendingRetry : Option BatchFailure := none
  deriving Repr, DecidableEq

namespace Session

def fresh (token : SessionToken) (source : FeedSource) : Session where
  token := token
  title := source.title
  defaults := source.defaults

def loadedItems (s : Session) : List Item := s.items.getD []

def reproject (clock : Clock) (s : Session) : Session :=
  match s.items with
  | none => s
  | some items =>
    let shown := Projection.latched s.latch items s.filter s.naming clock
    { s with projection := some shown.1, latch := shown.2 }

end Session

inductive Phase where
  | closed
  | loading
  | ready
  | dispatching
  deriving DecidableEq, Repr, Inhabited

def Phase.word : Phase → String
  | closed => "closed"
  | loading => "loading"
  | ready => "ready"
  | dispatching => "dispatching"

/-- Why an operation is refused. -/
inductive DialogError where
  | notReady (phase : Phase)
  | emptySelection
  | nothingToRetry
  deriving DecidableEq, Repr

def DialogError.message : DialogError → String
  | notReady phase => "Feed view is " ++ phase.word
  | emptySelection => nothingSelected
  | nothingToRetry => "No failed batch to retry"

/-- Why the items of a feed cannot be shown. -/
inductive LoadError where
  | remote (error : RemoteError)
  | duplicateUrl (url : String)
  | panicked (text : String)
  deriving DecidableEq, Repr

def LoadError.message : LoadError → String
  | remote e => "Could not load feed: " ++ e.message
  | duplicateUrl url => "Feed contains duplicate item URL " ++ url
  | panicked text => "Feed load failed unexpectedly: " ++ text

def batchPanicMessage (text : String) : String := "Dispatch failed unexpectedly: " ++ text

/-- What is said of a batch that ended at a job, with the number of jobs not tried on a line of
its own. -/
def BatchFailure.report (f : BatchFailure) : String :=
  if f.remaining.isEmpty then f.message
  else f.message ++ "\n" ++ Nat.repr f.remaining.length ++ " more item(s) were not sent"

end FeedDesk
