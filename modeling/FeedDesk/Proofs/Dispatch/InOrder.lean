import FeedDesk.Dispatch.Batch
import Mathlib.Data.List.Basic

/-!
# Batches are sent in order

The jobs of a batch are requested one after another, each once the one before it was answered. The
first answer other than true ends the batch at its job: the jobs in front of it are done, and those
behind it are left as they are. Whether anybody hears of the progress makes no difference.
-/
namespace FeedDesk

/-- The requests for some jobs, in order. None is to be queued in a paused state. -/
def requestsFor (defaults : DispatchDefaults) (jobs : List Job) : List AppendRequest :=
  jobs.map fun job => ⟨job.name, defaults.category, defaults.priority, false, job.url⟩

/-- The position of the first answer other than true; the number of answers if there is none. -/
def firstRefusal (answers : List (Answer Bool)) : Nat :=
  answers.findIdx fun answer => decide (answer ≠ .ok true)

/-- The reports of progress after each of the next jobs of a batch, `start` of which are done. -/
def reportsOf (total start count : Nat) : List BatchProgress :=
  (List.range count).map fun k => ⟨start + k + 1, total⟩

/-- A batch that ended at a job, in position `i`, because of an answer. -/
structure EndsAt (jobs : List Job) (i : Nat) (answer : Answer Bool) (failure : BatchFailure) :
    Prop where
  failed : jobs[i]? = some failure.failed
  completed : failure.completed = i
  remaining : failure.remaining = jobs.drop (i + 1)
  total : failure.completed + 1 + failure.remaining.length = jobs.length
  error : answer = .error failure.error ∨
    answer = .ok false ∧ failure.error = .declined "appendurl"

section
variable {σ : Type} (append : AppendRequest → σ → Answer Bool × σ)

def answersTo : List AppendRequest → σ → List (Answer Bool)
  | [], _ => []
  | request :: rest, s => (append request s).1 :: answersTo rest (append request s).2

def stateAfter (requests : List AppendRequest) (s : σ) : σ :=
  requests.foldl (fun s request => (append request s).2) s

/-- What comes of some jobs at a remote side that would give some answers to their requests,
whoever hears of the progress. -/
structure SentInOrder (defaults : DispatchDefaults) (jobs : List Job) (s : σ)
    (answers : List (Answer Bool)) (run : ProgressListener → BatchRun σ) : Prop where
  requests : ∀ listener, (run listener).requests =
    requestsFor defaults (jobs.take (firstRefusal answers + 1))
  after : ∀ listener, (run listener).after = stateAfter append (run listener).requests s
  completed_iff : ∀ listener, (run listener).result = .ok jobs ↔
    ∀ answer ∈ answers, answer = .ok true
  halted : ∀ listener, (∃ answer ∈ answers, answer ≠ .ok true) → ∃ answer failure,
    answers[firstRefusal answers]? = some answer ∧ (run listener).result = .error failure ∧
      EndsAt jobs (firstRefusal answers) answer failure
  unheeded : ∀ listener listener', (run listener).requests = (run listener').requests ∧
    (run listener).result = (run listener').result ∧ (run listener).after = (run listener').after
  progress : (run .attending).progress = reportsOf jobs.length 0 (firstRefusal answers)
  unheard : ∀ listener, listener ≠ .attending → (run listener).progress = []

variable {append} {defaults : DispatchDefaults} {listener : ProgressListener} {s : σ}

/-! ## Answers -/

theorem refusal_eq_some {answer : Answer Bool} {error : RemoteError}
    (h : refusal? answer = some error) :
    answer = .error error ∨ answer = .ok false ∧ error = .declined "appendurl" := by
  rcases answer with e | _ | _
  · exact .inl (congrArg Except.error (Option.some.inj h))
  · exact .inr ⟨rfl, (Option.some.inj h).symm⟩
  · cases h

theorem answersTo_append (a b : List AppendRequest) (s : σ) :
    answersTo append (a ++ b) s =
      answersTo append a s ++ answersTo append b (stateAfter append a s) := by
  induction a generalizing s with
  | nil => rfl
  | cons request rest ih => exact congrArg (_ :: ·) (ih _)

theorem length_answersTo (requests : List AppendRequest) (s : σ) :
    (answersTo append requests s).length = requests.length := by
  induction requests generalizing s with
  | nil => rfl
  | cons request rest ih => exact congrArg (· + 1) (ih _)

theorem firstRefusal_of_acknowledged {answers : List (Answer Bool)}
    (h : ∀ answer ∈ answers, answer = .ok true) : firstRefusal answers = answers.length := by
  apply List.findIdx_eq_length_of_false
  intro answer hanswer
  simp [h answer hanswer]

theorem firstRefusal_append {answers rest : List (Answer Bool)} {answer : Answer Bool}
    (h : ∀ answer ∈ answers, answer = .ok true) (hrefused : answer ≠ .ok true) :
    firstRefusal (answers ++ answer :: rest) = answers.length := by
  have hall : List.findIdx (fun answer => decide (answer ≠ .ok true)) answers = answers.length :=
    firstRefusal_of_acknowledged h
  rw [firstRefusal, List.findIdx_append, hall, if_neg (Nat.lt_irrefl _), List.findIdx_cons]
  simp [hrefused]

/-- The jobs of a batch are all acknowledged, or there is a first one that is not. -/
theorem acknowledged_or_refused (jobs : List Job) (s : σ) :
    (∀ answer ∈ answersTo append (requestsFor defaults jobs) s, answer = .ok true) ∨
      ∃ done job rest error, jobs = done ++ job :: rest ∧
        (∀ answer ∈ answersTo append (requestsFor defaults done) s, answer = .ok true) ∧
        refusal? (append (job.request defaults)
          (stateAfter append (requestsFor defaults done) s)).1 = some error := by
  induction jobs generalizing s with
  | nil => exact .inl (by simp [requestsFor, answersTo])
  | cons job rest ih =>
    cases hrefusal : refusal? (append (job.request defaults) s).1 with
    | some error => exact .inr ⟨[], job, rest, error, rfl, by simp [requestsFor, answersTo], hrefusal⟩
    | none =>
      have hfirst := refusal_eq_none_iff.mp hrefusal
      rcases ih (append (job.request defaults) s).2 with hall | ⟨done, next, left, error, rfl, h, hr⟩
      · exact .inl (List.forall_mem_cons.mpr ⟨hfirst, hall⟩)
      · exact .inr ⟨job :: done, next, left, error, rfl, List.forall_mem_cons.mpr ⟨hfirst, h⟩, hr⟩

/-! ## Jobs that are sent -/

theorem reportsOf_succ (total start count : Nat) :
    reportsOf total start (count + 1) = ⟨start + 1, total⟩ :: reportsOf total (start + 1) count := by
  rw [reportsOf, List.range_succ_eq_map, List.map_cons, List.map_map, reportsOf]
  congr 2
  ext k
  simp only [Function.comp_apply]
  congr 1
  omega

/-- Jobs that are acknowledged are sent, and then those behind them. -/
theorem sendJobs_append (total : Nat) {next : List Job}
    (h : ∀ answer ∈ answersTo append (requestsFor defaults next) s, answer = .ok true)
    (done rest : List Job) :
    sendJobs append defaults listener total done (next ++ rest) s =
      let run := sendJobs append defaults listener total (done ++ next) rest
        (stateAfter append (requestsFor defaults next) s)
      { run with
        requests := requestsFor defaults next ++ run.requests
        progress := (reportsOf total done.length next.length).flatMap listener.hears
          ++ run.progress } := by
  induction next generalizing done s with
  | nil => simp [requestsFor, stateAfter, reportsOf]
  | cons job next ih =>
    obtain ⟨hjob, hnext⟩ := List.forall_mem_cons.mp h
    change ∀ answer ∈ answersTo append (requestsFor defaults next)
      (append (job.request defaults) s).2, answer = .ok true at hnext
    have hfirst : refusal? (append (job.request defaults) s).1 = none :=
      refusal_eq_none_iff.mpr hjob
    rw [List.cons_append, sendJobs]
    simp only [hfirst]
    rw [ih hnext, List.length_cons, reportsOf_succ]
    simp only [List.append_assoc, List.flatMap_cons, List.length_append, List.length_singleton]
    rfl

theorem sendJobs_of_acknowledged (total : Nat) {jobs : List Job}
    (h : ∀ answer ∈ answersTo append (requestsFor defaults jobs) s, answer = .ok true) :
    sendJobs append defaults listener total [] jobs s =
      ⟨requestsFor defaults jobs, (reportsOf total 0 jobs.length).flatMap listener.hears, .ok jobs,
        stateAfter append (requestsFor defaults jobs) s⟩ := by
  have hall : sendJobs append defaults listener total [] (jobs ++ []) s = _ :=
    sendJobs_append total h [] []
  simpa only [List.append_nil, List.nil_append, List.length_nil, sendJobs] using hall

theorem sendJobs_of_refused (total : Nat) {done : List Job} {job : Job} {error : RemoteError}
    (h : ∀ answer ∈ answersTo append (requestsFor defaults done) s, answer = .ok true)
    (hr : refusal? (append (job.request defaults)
      (stateAfter append (requestsFor defaults done) s)).1 = some error) (rest : List Job) :
    sendJobs append defaults listener total [] (done ++ job :: rest) s =
      ⟨requestsFor defaults (done ++ [job]),
        (reportsOf total 0 done.length).flatMap listener.hears,
        .error ⟨job, error, rest, done.length⟩,
        stateAfter append (requestsFor defaults (done ++ [job])) s⟩ := by
  rw [sendJobs_append total h, sendJobs]
  simp only [hr]
  simp [requestsFor, stateAfter, Job.request]

theorem flatMap_hears_attending (reports : List BatchProgress) :
    reports.flatMap ProgressListener.attending.hears = reports :=
  List.flatMap_singleton' reports

theorem flatMap_hears_of_ne {listener : ProgressListener} (h : listener ≠ .attending)
    (reports : List BatchProgress) : reports.flatMap listener.hears = [] := by
  cases listener with
  | attending => exact absurd rfl h
  | absent | departed => exact List.flatMap_eq_nil_iff.mpr fun _ _ => rfl

/-! ## Batches -/

/-- The listener has no part in what a batch comes to. -/
theorem SentInOrder.of_run {jobs : List Job} {answers : List (Answer Bool)}
    {run : ProgressListener → BatchRun σ} (result : BatchResult)
    (hrun : ∀ listener, run listener =
      ⟨requestsFor defaults (jobs.take (firstRefusal answers + 1)),
        (reportsOf jobs.length 0 (firstRefusal answers)).flatMap listener.hears, result,
        stateAfter append (requestsFor defaults (jobs.take (firstRefusal answers + 1))) s⟩)
    (hcompleted : result = .ok jobs ↔ ∀ answer ∈ answers, answer = .ok true)
    (hhalted : (∃ answer ∈ answers, answer ≠ .ok true) → ∃ answer failure,
      answers[firstRefusal answers]? = some answer ∧ result = .error failure ∧
        EndsAt jobs (firstRefusal answers) answer failure) :
    SentInOrder append defaults jobs s answers run := by
  constructor
  case requests | after =>
    intro listener
    rw [hrun]
  case completed_iff =>
    intro listener
    rw [hrun]
    exact hcompleted
  case halted =>
    intro listener
    rw [hrun]
    exact hhalted
  case unheeded =>
    intro listener listener'
    rw [hrun, hrun]
    exact ⟨rfl, rfl, rfl⟩
  case progress =>
    rw [hrun]
    exact flatMap_hears_attending _
  case unheard =>
    intro listener hne
    rw [hrun]
    exact flatMap_hears_of_ne hne _

theorem length_answersTo_requestsFor (jobs : List Job) (s : σ) :
    (answersTo append (requestsFor defaults jobs) s).length = jobs.length := by
  rw [length_answersTo, requestsFor, List.length_map]

theorem sentInOrder_of_acknowledged {jobs : List Job}
    (h : ∀ answer ∈ answersTo append (requestsFor defaults jobs) s, answer = .ok true) :
    SentInOrder append defaults jobs s (answersTo append (requestsFor defaults jobs) s)
      fun listener => sendJobs append defaults listener jobs.length [] jobs s := by
  have hposition : firstRefusal (answersTo append (requestsFor defaults jobs) s) = jobs.length := by
    rw [firstRefusal_of_acknowledged h, length_answersTo_requestsFor]
  apply SentInOrder.of_run (.ok jobs)
  case hrun =>
    intro listener
    rw [hposition, List.take_of_length_le (Nat.le_succ _)]
    exact sendJobs_of_acknowledged jobs.length h
  case hcompleted => exact iff_of_true rfl h
  case hhalted =>
    rintro ⟨answer, hanswer, hrefused⟩
    exact absurd (h answer hanswer) hrefused

theorem sentInOrder_of_refused {done : List Job} {job : Job} {error : RemoteError}
    (h : ∀ answer ∈ answersTo append (requestsFor defaults done) s, answer = .ok true)
    (hr : refusal? (append (job.request defaults)
      (stateAfter append (requestsFor defaults done) s)).1 = some error) (rest : List Job) :
    SentInOrder append defaults (done ++ job :: rest) s
      (answersTo append (requestsFor defaults (done ++ job :: rest)) s) fun listener =>
        sendJobs append defaults listener (done ++ job :: rest).length [] (done ++ job :: rest) s := by
  let answer := (append (job.request defaults)
    (stateAfter append (requestsFor defaults done) s)).1
  have hrefused : answer ≠ .ok true := by
    intro htrue
    rw [refusal_eq_none_iff.mpr htrue] at hr
    cases hr
  obtain ⟨others, hanswers⟩ : ∃ others,
      answersTo append (requestsFor defaults (done ++ job :: rest)) s =
        answersTo append (requestsFor defaults done) s ++ answer :: others := by
    rw [requestsFor, List.map_append, answersTo_append]
    exact ⟨_, rfl⟩
  have hlength : (answersTo append (requestsFor defaults done) s).length = done.length :=
    length_answersTo_requestsFor done s
  have hposition : firstRefusal
      (answersTo append (requestsFor defaults (done ++ job :: rest)) s) = done.length := by
    rw [hanswers, firstRefusal_append h hrefused, hlength]
  have htaken : (done ++ job :: rest).take (done.length + 1) = done ++ [job] :=
    List.take_length_add_append 1
  apply SentInOrder.of_run (.error ⟨job, error, rest, done.length⟩)
  case hrun =>
    intro listener
    rw [hposition, htaken]
    exact sendJobs_of_refused _ h hr rest
  case hcompleted =>
    refine iff_of_false (by simp) fun hall => hrefused (hall answer ?_)
    rw [hanswers]
    simp
  case hhalted =>
    rintro -
    rw [hposition]
    refine ⟨answer, _, ?_, rfl, ?_⟩
    · rw [hanswers, ← hlength]
      simp
    · constructor
      case failed => simp
      case completed => rfl
      case remaining =>
        rw [List.drop_length_add_append]
        rfl
      case total =>
        change done.length + 1 + rest.length = _
        rw [List.length_append, List.length_cons]
        omega
      case error => exact refusal_eq_some hr

/-- A batch requests its jobs one after another, up to the first that is not acknowledged. If all
are, they are its result; else the batch ends at that job with the reason, the number of the jobs
in front of it and the jobs behind it. Who hears of the progress makes no difference, and one who
does hears of each acknowledged job. -/
theorem dispatch_sentInOrder (append : AppendRequest → σ → Answer Bool × σ)
    (defaults : DispatchDefaults) (queue : JobQueue) (s : σ) :
    SentInOrder append defaults queue.toList s
      (answersTo append (requestsFor defaults queue.toList) s)
      fun listener => dispatch append defaults listener queue s := by
  simp only [dispatch, JobQueue.size]
  rcases acknowledged_or_refused queue.toList s with h | ⟨done, job, rest, error, hjobs, h, hr⟩
  · exact sentInOrder_of_acknowledged h
  · rw [hjobs]
    exact sentInOrder_of_refused h hr rest

end

end FeedDesk
