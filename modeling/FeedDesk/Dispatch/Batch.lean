import FeedDesk.Dispatch.Defaults
import FeedDesk.Dispatch.Queue
import FeedDesk.Remote.Call
import FeedDesk.Remote.Error

/-!
# Batches

The jobs of a batch are sent one at a time and in order, because the server queues items as they
come. The first job that is not acknowledged ends the batch; what is left of it can be retried,
beginning with the job that failed.
-/
namespace FeedDesk

structure BatchFailure where
  failed : Job
  error : RemoteError
  remaining : List Job
  completed : Nat
  deriving DecidableEq, Repr

namespace BatchFailure

def message (f : BatchFailure) : String :=
  "Could not add " ++ f.failed.name ++ " to queue: " ++ f.error.message

/-- The jobs of a retry: the one that failed and those behind it. -/
def retryQueue (f : BatchFailure) : JobQueue := ⟨f.failed, f.remaining⟩

end BatchFailure

/-- How a batch ends: with all jobs acknowledged, or at one that was not. -/
abbrev BatchResult := Except BatchFailure (List Job)

structure BatchProgress where
  done : Nat
  total : Nat
  deriving DecidableEq, Repr, Inhabited

/-- Who hears of the progress of a batch. -/
inductive ProgressListener where
  | absent
  | attending
  | departed
  deriving DecidableEq, Repr

def ProgressListener.hears : ProgressListener → BatchProgress → List BatchProgress
  | attending, p => [p]
  | _, _ => []

/-- The request of a job. Items are not queued in a paused state. -/
def Job.request (defaults : DispatchDefaults) (job : Job) : AppendRequest where
  name := job.name
  category := defaults.category
  priority := defaults.priority
  paused := false
  url := job.url

/-- Why an answer to a request is no acknowledgement. -/
def refusal? : Answer Bool → Option RemoteError
  | .ok true => none
  | .ok false => some (.declined "appendurl")
  | .error e => some e

theorem refusal_eq_none_iff {answer : Answer Bool} : refusal? answer = none ↔ answer = .ok true := by
  rcases answer with _ | _ | _ <;> simp [refusal?]

/-- A run of a batch: the requests made, the progress heard, the result, and the remote side's
state afterwards. -/
structure BatchRun (σ : Type) where
  requests : List AppendRequest
  progress : List BatchProgress
  result : BatchResult
  after : σ

section
variable {σ : Type} (append : AppendRequest → σ → Answer Bool × σ) (defaults : DispatchDefaults)
  (listener : ProgressListener)

/-- Sends jobs behind those already acknowledged, as part of a batch of `total`. -/
def sendJobs (total : Nat) (done : List Job) : List Job → σ → BatchRun σ
  | [], s => ⟨[], [], .ok done, s⟩
  | job :: rest, s =>
    let answered := append (job.request defaults) s
    match refusal? answered.1 with
    | some error => ⟨[job.request defaults], [], .error ⟨job, error, rest, done.length⟩, answered.2⟩
    | none =>
      let run := sendJobs total (done ++ [job]) rest answered.2
      { run with
        requests := job.request defaults :: run.requests
        progress := listener.hears ⟨done.length + 1, total⟩ ++ run.progress }

def dispatch (queue : JobQueue) (s : σ) : BatchRun σ :=
  sendJobs append defaults listener queue.size [] queue.toList s

/-- Sends the jobs of a queue, and after a failure those that are left, up to a number of
retries. -/
def dispatchRetrying : Nat → JobQueue → σ → List (BatchRun σ)
  | 0, queue, s => [dispatch append defaults listener queue s]
  | retries + 1, queue, s =>
    let run := dispatch append defaults listener queue s
    match run.result with
    | .ok _ => [run]
    | .error failure => run :: dispatchRetrying retries failure.retryQueue run.after

end

end FeedDesk
