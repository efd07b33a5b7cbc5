import FeedDesk.Dialog.Controller
import FeedDesk.Host.Screen

/-!
# The desk

A desk is a view at work: the screen it drives, the server it calls, the background work under
way and the events that wait to be handled. Time is virtual. It passes only while events are
awaited, and work that is due earlier goes on earlier. Between two waits a task is not
interrupted, and what it reports in between is heard when it waits again or ends; a task that
breaks off leaves nothing but the news of it.
-/
namespace FeedDesk

/-! ## The server's side -/

/-- How a call to the server ends: with an answer, or by breaking the task that made it. -/
inductive CallOutcome (α : Type) where
  | answers (answer : Answer α)
  | breaks (text : String)

structure PlannedCall (α : Type) where
  delay : Nat
  outcome : CallOutcome α

structure Remote (σ : Type) where
  load : RemoteCall → σ → PlannedCall (List Item) × σ
  append : AppendRequest → σ → PlannedCall Bool × σ

/-! ## Work under way -/

structure BatchWork where
  token : SessionToken
  batch : UInt64
  defaults : DispatchDefaults
  total : Nat
  deriving DecidableEq, Repr

/-- What a task waits for. -/
inductive Activity where
  | unstarted (task : Task)
  | loading (token : SessionToken) (outcome : CallOutcome (List Item))
  | waiting (token : SessionToken) (batch : UInt64)
  | appending (work : BatchWork) (done : List Job) (job : Job) (outcome : CallOutcome Bool)
      (rest : List Job)

structure Running where
  due : Nat
  activity : Activity

/-- What a task does before it waits again or ends. -/
structure Burst (σ : Type) where
  calls : List RemoteCall
  events : List Event
  next : Option Running
  remote : σ

def BatchWork.event (w : BatchWork) (report : Report) : Event := ⟨w.token, report⟩

def BatchWork.progressEvents (w : BatchWork) (unheard : List BatchProgress) : List Event :=
  unheard.map fun p => w.event (.progress p.done p.total)

def loadEvent (token : SessionToken) : CallOutcome (List Item) → Event
  | .answers result => ⟨token, .loaded result⟩
  | .breaks text => ⟨token, .panicked .load text⟩

section
variable {σ : Type} (remote : Remote σ) (now : Nat)

/-- Goes on with a batch once the call for a job has ended. Progress not yet heard of comes before
what the batch reports itself. There is room for any number of reports that nobody has read, so a
batch never waits for one of them to be taken, as it would where only some can be kept. -/
def BatchWork.goOn (w : BatchWork) (unheard : List BatchProgress) (done : List Job) (job : Job)
    (outcome : CallOutcome Bool) : List Job → σ → Burst σ
  | rest, s =>
    match outcome with
    | .breaks text => ⟨[], [w.event (.panicked .dispatch text)], none, s⟩
    | .answers answer =>
      match refusal? answer with
      | some error =>
        ⟨[], w.progressEvents unheard
          ++ [w.event (.finished w.batch (.error ⟨job, error, rest, done.length⟩))], none, s⟩
      | none =>
        let done := done ++ [job]
        let unheard := unheard ++ [⟨done.length, w.total⟩]
        match rest with
        | [] => ⟨[], w.progressEvents unheard ++ [w.event (.finished w.batch (.ok done))], none, s⟩
        | job :: rest =>
          let request := job.request w.defaults
          let (planned, s) := remote.append request s
          if planned.delay = 0 then
            let burst := w.goOn unheard done job planned.outcome rest s
            { burst with calls := .appendUrl request :: burst.calls }
          else
            ⟨[.appendUrl request], w.progressEvents unheard,
              some ⟨now + planned.delay, .appending w done job planned.outcome rest⟩, s⟩

def Task.start (s : σ) : Task → Burst σ
  | .load token call =>
    let (planned, s) := remote.load call s
    ⟨[call], [], some ⟨now + planned.delay, .loading token planned.outcome⟩, s⟩
  | .timer token batch delay => ⟨[], [], some ⟨now + delay, .waiting token batch⟩, s⟩
  | .dispatch token batch defaults queue =>
    let w : BatchWork := ⟨token, batch, defaults, queue.size⟩
    let request := queue.head.request defaults
    let (planned, s) := remote.append request s
    if planned.delay = 0 then
      let burst := w.goOn remote now [] [] queue.head planned.outcome queue.rest s
      { burst with calls := .appendUrl request :: burst.calls }
    else
      ⟨[.appendUrl request], [],
        some ⟨now + planned.delay, .appending w [] queue.head planned.outcome queue.rest⟩, s⟩

def Activity.resume (s : σ) : Activity → Burst σ
  | .unstarted task => task.start remote now s
  | .loading token outcome => ⟨[], [loadEvent token outcome], none, s⟩
  | .waiting token batch => ⟨[], [⟨token, .timeElapsed batch⟩], none, s⟩
  | .appending w done job outcome rest => w.goOn remote now [] done job outcome rest s

end

/-- A bound on the times a task goes on and the events it reports, together. -/
def Activity.weight : Activity → Nat
  | .unstarted (.dispatch _ _ _ queue) => 2 * queue.rest.length + 4
  | .unstarted _ => 3
  | .loading .. | .waiting .. => 2
  | .appending _ _ _ _ rest => 2 * rest.length + 3

/-! ## The desk -/

structure Desk (σ : Type) where
  dialog : Dialog
  wallClock : Int64
  remote : σ
  time : Nat := 0
  screen : Screen := {}
  tasks : List Running := []
  queue : List Event := []
  listening : Bool := true
  hostCalls : List HostCall := []
  remoteCalls : List RemoteCall := []

namespace Desk

variable {σ : Type}

def carryOut (desk : Desk σ) : Effect → Desk σ
  | .host call =>
    { desk with screen := desk.screen.apply call, hostCalls := desk.hostCalls ++ [call] }
  | .start task => { desk with tasks := desk.tasks ++ [⟨desk.time, .unstarted task⟩] }
  | .abandonTasks => { desk with tasks := [] }

def follow (desk : Desk σ) (turn : Turn) : Desk σ :=
  turn.effects.foldl carryOut { desk with dialog := turn.dialog }

def perform (desk : Desk σ) (op : Operation) : Except DialogError Unit × Desk σ :=
  let reply := desk.dialog.perform desk.wallClock op
  (reply.outcome, desk.follow reply.turn)

def after (desk : Desk σ) (op : Operation) : Desk σ := (desk.perform op).2

def handleNext (desk : Desk σ) : Desk σ :=
  match desk.queue with
  | [] => desk
  | event :: rest => { desk with queue := rest }.after (.deliver event)

def handleAll (desk : Desk σ) : Desk σ :=
  desk.queue.foldl (fun desk event => desk.after (.deliver event)) { desk with queue := [] }

def stopListening (desk : Desk σ) : Desk σ := { desk with listening := false }

/-- Takes the first of the tasks that are due earliest out of a list. -/
def takeEarliest : List Running → Option (Running × List Running)
  | [] => none
  | task :: rest =>
    match takeEarliest rest with
    | none => some (task, [])
    | some (other, others) =>
      if task.due ≤ other.due then some (task, rest) else some (other, task :: others)

/-- A desk after a task has gone on. A task that waits again comes after the others; what it
reports is lost if nobody listens. The queue has no bound: a task that reports much goes on whether
or not its reports are read, and also when nobody listens any more. -/
def absorb (desk : Desk σ) (burst : Burst σ) : Desk σ :=
  { desk with
    remote := burst.remote
    remoteCalls := desk.remoteCalls ++ burst.calls
    tasks := desk.tasks ++ burst.next.toList
    queue := if desk.listening then desk.queue ++ burst.events else desk.queue }

/-- Lets time pass to a task that is due, and the task go on. -/
def resume (remote : Remote σ) (desk : Desk σ) (task : Running) (others : List Running) : Desk σ :=
  let time := max desk.time task.due
  { desk with time, tasks := others }.absorb (task.activity.resume remote time desk.remote)

/-- A bound on the times that tasks go on and events are handled before there is nothing left. -/
def workload (desk : Desk σ) : Nat :=
  desk.tasks.foldr (fun t n => t.activity.weight + n) desk.queue.length

/-- Handles events, and lets time pass while there are none, until the view is not busy. -/
def settleWithin (remote : Remote σ) : Nat → Desk σ → Desk σ
  | 0, desk => desk
  | fuel + 1, desk =>
    if !desk.dialog.isBusy then desk
    else if !desk.queue.isEmpty then settleWithin remote fuel desk.handleNext
    else if !desk.listening then desk
    else
      match takeEarliest desk.tasks with
      | none => desk
      | some (task, others) => settleWithin remote fuel (desk.resume remote task others)

/-- Handles events until the view is not busy, or no event can come. -/
def settle (remote : Remote σ) (desk : Desk σ) : Desk σ :=
  settleWithin remote desk.workload desk

def runUntil (remote : Remote σ) (deadline : Nat) : Nat → Desk σ → Desk σ
  | 0, desk => desk
  | fuel + 1, desk =>
    match takeEarliest desk.tasks with
    | none => desk
    | some (task, others) =>
      if task.due ≤ deadline then runUntil remote deadline fuel (desk.resume remote task others)
      else desk

/-- Lets time pass without handling events. -/
def advance (remote : Remote σ) (span : Nat) (desk : Desk σ) : Desk σ :=
  let deadline := desk.time + span
  { runUntil remote deadline desk.workload desk with time := deadline }

end Desk

end FeedDesk
