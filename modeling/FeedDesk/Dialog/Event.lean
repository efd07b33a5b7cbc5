import FeedDesk.Dialog.Session

/-!
# Background work

Items are loaded, batches are sent and the wait for the transmit sign passes in the background.
The work is asked for by effects of the view and reports back by events, which carry the token of
the session that asked for it.
-/
namespace FeedDesk

inductive Task where
  | load (token : SessionToken) (call : RemoteCall)
  | timer (token : SessionToken) (batch : UInt64) (delay : Nat)
  | dispatch (token : SessionToken) (batch : UInt64) (defaults : DispatchDefaults)
      (queue : JobQueue)
  deriving DecidableEq, Repr

inductive TaskKind where
  | load
  | dispatch
  | timer
  | unrelated
  deriving DecidableEq, Repr, Inhabited

inductive Report where
  | loaded (result : Answer (List Item))
  | progress (done total : Nat)
  | finished (batch : UInt64) (result : BatchResult)
  | timeElapsed (batch : UInt64)
  | panicked (task : TaskKind) (text : String)
  deriving Repr

/-- A report with the token of the session that it is for. -/
structure Event where
  token : SessionToken
  report : Report
  deriving Repr

/-- What a step of the view has done to the world outside. -/
inductive Effect where
  | host (call : HostCall)
  | start (task : Task)
  | abandonTasks
  deriving DecidableEq, Repr

end FeedDesk
