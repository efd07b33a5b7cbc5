import FeedDesk.Dialog.Event

/-!
# The view

The view is closed, loading, ready or dispatching. It is opened on a feed, and from then on the
host's refresh is paused until it closes. Events of other sessions than the open one are passed
over. Every step is a function from the view to the view and the effects of the step, in order.
-/
namespace FeedDesk

/-- What the view takes from the configuration. -/
structure DialogSettings where
  pageSize : Nat
  transmitDelay : Nat
  zone : Int32
  deriving DecidableEq, Repr, Inhabited

structure Dialog where
  settings : DialogSettings
  phase : Phase := .closed
  session : Option Session := none
  lastToken : SessionToken := .initial
  deriving DecidableEq, Repr

/-- A view after a step, with the effects of the step. -/
structure Turn where
  dialog : Dialog
  effects : List Effect
  deriving DecidableEq, Repr

namespace Turn

def idle (d : Dialog) : Turn := ⟨d, []⟩

def andThen (t : Turn) (next : Dialog → Turn) : Turn :=
  ⟨(next t.dialog).dialog, t.effects ++ (next t.dialog).effects⟩

end Turn

structure Reply where
  outcome : Except DialogError Unit
  turn : Turn

namespace Dialog

def create (settings : DialogSettings) : Dialog := { settings }

/-- Whether background work is under way whose end is awaited. -/
def isBusy (d : Dialog) : Bool := d.phase == .loading || d.phase == .dispatching

/-! ## Opening and closing -/

def hideTransmit (d : Dialog) : Turn :=
  match d.session with
  | some s =>
    if s.transmitVisible then
      ⟨{ d with session := some { s with transmitVisible := false } }, [.host (.transmit false)]⟩
    else .idle d
  | none => .idle d

def endSession (d : Dialog) : Turn :=
  ⟨{ d with session := none, phase := .closed },
    [.host (.loading false), .host .clearTable, .host .resumeRefresh]⟩

/-- Closes the view. Work under way is abandoned. -/
def close (d : Dialog) : Turn :=
  if d.phase = .closed then .idle d
  else Turn.andThen ⟨d, [.abandonTasks]⟩ fun d => d.hideTransmit.andThen endSession

def beginSession (source : FeedSource) (d : Dialog) : Turn :=
  let token := d.lastToken.next
  ⟨{ d with lastToken := token, session := some (.fresh token source), phase := .loading },
    [.host .pauseRefresh, .host (.title source.title), .host (.loading true),
      .start (.load token source.call)]⟩

/-- Opens the view on a feed. A view that is open is closed first. -/
def openOn (source : FeedSource) (d : Dialog) : Turn :=
  d.close.andThen (beginSession source)

/-! ## What is shown -/

/-- Shows the items anew, on the first page. -/
def refresh (now : Int64) (d : Dialog) : Turn :=
  match d.session with
  | none => .idle d
  | some s =>
    let s := { s.reproject ⟨now, d.settings.zone⟩ with page := 1 }
    ⟨{ d with session := some s },
      match s.projection with
      | some p => [.host (.table p (p.needsPager d.settings.pageSize)), .host (.page 1)]
      | none => []⟩

def whenReady (d : Dialog) (step : Session → Reply) : Reply :=
  match d.phase, d.session with
  | .ready, some s => step s
  | phase, _ => ⟨.error (.notReady phase), .idle d⟩

def setFilter (now : Int64) (filter : StatusFilter) (d : Dialog) : Reply :=
  d.whenReady fun s => ⟨.ok (), refresh now { d with session := some { s with filter } }⟩

def setNaming (now : Int64) (naming : Naming) (d : Dialog) : Reply :=
  d.whenReady fun s => ⟨.ok (), refresh now { d with session := some { s with naming } }⟩

/-! ## Batches -/

def startBatch (queue : JobQueue) (s : Session) (d : Dialog) : Turn :=
  let batch := s.batch + 1
  ⟨{ d with session := some { s with batch }, phase := .dispatching },
    [.host (.controls false), .start (.timer s.token batch d.settings.transmitDelay),
      .start (.dispatch s.token batch s.defaults queue)]⟩

/-- Sends the checked items. With nothing checked the operator is told to select items. -/
def fetch (checked : List String) (d : Dialog) : Reply :=
  d.whenReady fun s =>
    match JobQueue.ofSelection? s.loadedItems checked with
    | some queue => ⟨.ok (), d.startBatch queue { s with pendingRetry := none }⟩
    | none => ⟨.error .emptySelection, ⟨d, [.host (.notify .selectItems)]⟩⟩

/-- Sends what is left of the batch that failed last. -/
def retry (d : Dialog) : Reply :=
  d.whenReady fun s =>
    match s.pendingRetry with
    | some failure => ⟨.ok (), d.startBatch failure.retryQueue { s with pendingRetry := none }⟩
    | none => ⟨.error .nothingToRetry, .idle d⟩

/-! ## Events -/

def failLoad (e : LoadError) (d : Dialog) : Turn :=
  d.close.andThen fun d => ⟨d, [.host (.alert "Error" e.message)]⟩

def acceptItems (now : Int64) (items : List Item) (s : Session) (d : Dialog) : Turn :=
  Turn.andThen
    ⟨{ d with session := some { s with items := some items }, phase := .ready },
      [.host (.loading false)]⟩
    fun d => (d.refresh now).andThen fun d => ⟨d, [.host (.controls true)]⟩

/-- Takes the outcome of a load, which counts only while the view is loading. -/
def onLoaded (now : Int64) (result : Answer (List Item)) (s : Session) (d : Dialog) : Turn :=
  if d.phase ≠ .loading then .idle d
  else
    match result with
    | .error e => d.failLoad (.remote e)
    | .ok items =>
      match duplicateUrl items with
      | some url => d.failLoad (.duplicateUrl url)
      | none => d.acceptItems now items s

def onProgress (done total : Nat) (d : Dialog) : Turn :=
  if d.phase = .dispatching then ⟨d, [.host (.progress done total)]⟩ else .idle d

/-- Shows the transmit sign if the batch whose wait is over is still being sent. -/
def onTimeElapsed (batch : UInt64) (s : Session) (d : Dialog) : Turn :=
  if d.phase = .dispatching ∧ s.batch = batch then
    ⟨{ d with session := some { s with transmitVisible := true } }, [.host (.transmit true)]⟩
  else .idle d

/-- Makes the view ready again after a batch that did not complete. -/
def becomeReady (message : String) (d : Dialog) : Turn :=
  ⟨{ d with phase := .ready }, [.host (.controls true), .host (.alert "Error" message)]⟩

def rememberFailure (failure : BatchFailure) (d : Dialog) : Turn :=
  .idle { d with session := d.session.map fun s => { s with pendingRetry := some failure } }

/-- Takes the result of a batch, which counts only while that batch is being sent. -/
def onFinished (batch : UInt64) (result : BatchResult) (s : Session) (d : Dialog) : Turn :=
  if d.phase ≠ .dispatching ∨ s.batch ≠ batch then .idle d
  else
    d.hideTransmit.andThen fun d =>
      match result with
      | .ok jobs => d.close.andThen fun d => ⟨d, [.host (.notify (.fetched jobs.length))]⟩
      | .error failure => (d.becomeReady failure.report).andThen (rememberFailure failure)

/-- Takes the news that work broke off. A batch that broke off cannot be retried. -/
def onPanicked (task : TaskKind) (text : String) (d : Dialog) : Turn :=
  match d.phase, task with
  | .loading, .load => d.failLoad (.panicked text)
  | .dispatching, .dispatch => d.hideTransmit.andThen (becomeReady (batchPanicMessage text))
  | _, _ => .idle d

/-- Takes an event. Events of other sessions than the open one are passed over. -/
def handle (now : Int64) (event : Event) (d : Dialog) : Turn :=
  match d.session with
  | none => .idle d
  | some s =>
    if s.token ≠ event.token then .idle d
    else
      match event.report with
      | .loaded result => d.onLoaded now result s
      | .progress done total => d.onProgress done total
      | .finished batch result => d.onFinished batch result s
      | .timeElapsed batch => d.onTimeElapsed batch s
      | .panicked task text => d.onPanicked task text

end Dialog

/-! ## Operations -/

inductive Operation where
  | openOn (source : FeedSource)
  | setFilter (filter : StatusFilter)
  | setNaming (naming : Naming)
  | fetch (checked : List String)
  | retry
  | cancel
  | deliver (event : Event)
  deriving Repr

def Dialog.perform (now : Int64) (d : Dialog) : Operation → Reply
  | .openOn source => ⟨.ok (), d.openOn source⟩
  | .setFilter filter => d.setFilter now filter
  | .setNaming naming => d.setNaming now naming
  | .fetch checked => d.fetch checked
  | .retry => d.retry
  | .cancel => ⟨.ok (), d.close⟩
  | .deliver event => ⟨.ok (), d.handle now event⟩

end FeedDesk
