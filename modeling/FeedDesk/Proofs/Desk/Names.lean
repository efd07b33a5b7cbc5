import FeedDesk.Proofs.Desk.Calls
import FeedDesk.Proofs.Dispatch.Selection
import FeedDesk.Proofs.Text.Extension

/-!
# The names of queued items

A job gets its name when it is made from an item, and no step of a view or of a task makes another
name. So what holds of the jobs of all items holds of every job that is requested, in a batch and in
its retries, whatever happens at the desk. Only a failed batch that an event from elsewhere tells of
could bring in jobs of another making.
-/
namespace FeedDesk

/-- The jobs that a report leaves to a retry. -/
def Report.outstanding : Report → List Job
  | .finished _ (.error failure) => failure.retryQueue.toList
  | _ => []

def Activity.outstanding : Activity → List Job
  | .unstarted (.dispatch _ _ _ queue) => queue.toList
  | .appending _ _ job _ rest => job :: rest
  | _ => []

def Dialog.outstanding (d : Dialog) : List Job :=
  match d.session.bind Session.pendingRetry with
  | some failure => failure.retryQueue.toList
  | none => []

/-- The events that are handed to a desk from elsewhere. -/
def Move.handedIn : Move → List Event
  | .operate op => op.handled
  | _ => []

variable {P : Job → Prop}

theorem Dialog.outstanding_of_session {d : Dialog} {s : Session} {failure : BatchFailure}
    (hs : d.session = some s) (hr : s.pendingRetry = some failure) :
    d.outstanding = failure.retryQueue.toList := by
  simp [outstanding, hs, hr]

theorem Dialog.outstanding_of_none {d : Dialog} (h : d.session.bind Session.pendingRetry = none) :
    d.outstanding = [] := by
  simp [outstanding, h]

/-! ## Batches -/

section
variable {σ : Type} {append : AppendRequest → σ → Answer Bool × σ} {defaults : DispatchDefaults}
  {listener : ProgressListener}

/-- A batch requests some of its jobs, and leaves some of them to a retry. -/
theorem sendJobs_draws (total : Nat) (done jobs : List Job) (s : σ) :
    (∀ request ∈ (sendJobs append defaults listener total done jobs s).requests,
        ∃ job ∈ jobs, request = job.request defaults) ∧
      ∀ failure, (sendJobs append defaults listener total done jobs s).result = .error failure →
        ∀ job ∈ failure.retryQueue.toList, job ∈ jobs := by
  induction jobs generalizing done s with
  | nil =>
    rw [sendJobs]
    exact ⟨by simp, by simp⟩
  | cons job rest ih =>
    rw [sendJobs]
    dsimp only
    split
    next error _ =>
      refine ⟨fun request hmem => ⟨job, List.mem_cons_self, List.mem_singleton.mp hmem⟩, ?_⟩
      rintro failure ⟨⟩ other hother
      exact hother
    next =>
      obtain ⟨hrequests, hleft⟩ := ih (done ++ [job]) (append (job.request defaults) s).2
      refine ⟨List.forall_mem_cons.mpr ⟨⟨job, List.mem_cons_self, rfl⟩, ?_⟩, ?_⟩
      · intro request hmem
        obtain ⟨other, hother, heq⟩ := hrequests request hmem
        exact ⟨other, List.mem_cons_of_mem _ hother, heq⟩
      · intro failure hresult other hother
        exact List.mem_cons_of_mem _ (hleft failure hresult other hother)

/-- A batch and its retries request only jobs of the batch. -/
theorem dispatchRetrying_draws (retries : Nat) (queue : JobQueue) (s : σ) :
    ∀ run ∈ dispatchRetrying append defaults listener retries queue s,
      ∀ request ∈ run.requests, ∃ job ∈ queue.toList, request = job.request defaults := by
  induction retries generalizing queue s with
  | zero => exact List.forall_mem_singleton.mpr (sendJobs_draws ..).1
  | succ retries ih =>
    obtain ⟨hrequests, hleft⟩ :=
      @sendJobs_draws σ append defaults listener queue.size [] queue.toList s
    rw [dispatchRetrying]
    split
    · exact List.forall_mem_singleton.mpr hrequests
    next failure hresult =>
      refine List.forall_mem_cons.mpr ⟨hrequests, fun run hrun request hmem => ?_⟩
      obtain ⟨job, hjob, heq⟩ := ih _ _ run hrun request hmem
      exact ⟨job, hleft failure hresult job hjob, heq⟩

end

/-! ## Tasks -/

/-- Whether all that a task requests, and leaves to be requested, are jobs of a kind. -/
structure Burst.Draws {σ : Type} (P : Job → Prop) (burst : Burst σ) : Prop where
  calls : ∀ request, .appendUrl request ∈ burst.calls → ∃ job, P job ∧ request.name = job.name
  events : ∀ e ∈ burst.events, ∀ job ∈ e.report.outstanding, P job
  next : ∀ t ∈ burst.next.toList, ∀ job ∈ t.activity.outstanding, P job

section
variable {σ : Type} {remote : Remote σ} {now : Nat}

namespace BatchWork

variable {w : BatchWork} {unheard : List BatchProgress} {done : List Job} {job : Job}
  {rest : List Job} {s : σ}

theorem outstanding_progressEvents (w : BatchWork) (unheard : List BatchProgress) :
    ∀ e ∈ w.progressEvents unheard, e.report.outstanding = [] := by
  intro e he
  obtain ⟨p, -, rfl⟩ := List.mem_map.mp he
  rfl

theorem send_draws (hjobs : ∀ other ∈ job :: rest, P other)
    (h : ∀ outcome s, (w.goOn remote now unheard done job outcome rest s).Draws P) :
    (w.send remote now unheard done job rest s).Draws P := by
  have hjob : P job := hjobs job List.mem_cons_self
  unfold send
  dsimp only
  split
  · have hgo := h (remote.append (job.request w.defaults) s).1.outcome
      (remote.append (job.request w.defaults) s).2
    refine ⟨fun request hmem => ?_, hgo.events, hgo.next⟩
    rcases List.mem_cons.mp hmem with hmade | hmem
    · obtain rfl := RemoteCall.appendUrl.inj hmade
      exact ⟨job, hjob, rfl⟩
    · exact hgo.calls request hmem
  · refine ⟨fun request hmem => ?_, fun e he => ?_, ?_⟩
    · obtain rfl := RemoteCall.appendUrl.inj (List.mem_singleton.mp hmem)
      exact ⟨job, hjob, rfl⟩
    · rw [w.outstanding_progressEvents unheard e he]
      exact List.forall_mem_nil _
    · exact List.forall_mem_singleton.mpr hjobs

theorem goOn_draws (w : BatchWork) (unheard : List BatchProgress) (done : List Job) {job : Job}
    (outcome : CallOutcome Bool) {rest : List Job} (s : σ)
    (hjobs : ∀ other ∈ job :: rest, P other) :
    (w.goOn remote now unheard done job outcome rest s).Draws P := by
  refine w.goOn_induction
    (P := fun _ _ job _ rest _ burst => (∀ other ∈ job :: rest, P other) → burst.Draws P)
    ?breaks ?refused ?last ?more unheard done job outcome rest s hjobs
  case breaks =>
    intros
    exact ⟨by simp, by simp [event, Report.outstanding], by simp⟩
  case refused =>
    intro unheard done job answer error rest s _ hjobs
    refine ⟨by simp, ?_, by simp⟩
    refine List.forall_mem_append.mpr ⟨fun e he => ?_, List.forall_mem_singleton.mpr hjobs⟩
    rw [w.outstanding_progressEvents unheard e he]
    exact List.forall_mem_nil _
  case last =>
    intro unheard done job answer s _ _
    refine ⟨by simp, ?_, by simp⟩
    refine List.forall_mem_append.mpr ⟨fun e he => ?_, ?_⟩
    · rw [w.outstanding_progressEvents _ e he]
      exact List.forall_mem_nil _
    · exact List.forall_mem_singleton.mpr (List.forall_mem_nil _)
  case more =>
    intro unheard done job answer next rest s _ ih hjobs
    have hnext := fun other hmem => hjobs other (List.mem_cons_of_mem _ hmem)
    exact send_draws hnext fun outcome s => ih _ _ outcome s hnext

end BatchWork

/-- A task requests the jobs that it has, and no others. -/
theorem Activity.resume_draws {a : Activity} (ha : a.LoadsItems)
    (hjobs : ∀ job ∈ a.outstanding, P job) (s : σ) : (a.resume remote now s).Draws P := by
  cases a with
  | unstarted task =>
    cases task with
    | load token call =>
      refine ⟨fun request hmem => ?_, by simp [resume, Task.start],
        by simp [resume, Task.start, outstanding]⟩
      have hcall : call = .appendUrl request := (List.mem_singleton.mp hmem).symm
      rw [hcall] at ha
      cases ha
    | timer token batch delay =>
      exact ⟨by simp [resume, Task.start], by simp [resume, Task.start],
        by simp [resume, Task.start, outstanding]⟩
    | dispatch token batch defaults queue =>
      rw [resume, start_dispatch]
      exact BatchWork.send_draws hjobs fun outcome s =>
        BatchWork.goOn_draws _ [] [] outcome s hjobs
  | loading token outcome =>
    refine ⟨by simp [resume], ?_, by simp [resume]⟩
    cases outcome <;> simp [resume, loadEvent, Report.outstanding]
  | waiting token batch =>
    exact ⟨by simp [resume], by simp [resume, Report.outstanding], by simp [resume]⟩
  | appending w done job outcome rest => exact w.goOn_draws [] done outcome s hjobs

end

/-! ## Steps of a view -/

theorem Dialog.outstanding_refresh (d : Dialog) (now : Int64) :
    (d.refresh now).dialog.outstanding = d.outstanding := by
  cases hs : d.session with
  | none => simp [refresh, hs, Turn.idle]
  | some s =>
    cases hi : s.items with
    | none => simp [refresh, outstanding, hs, Session.reproject, hi]
    | some items =>
      rw [refresh_of_items hs hi]
      simp [outstanding, hs, within, Session.shown]

/-- The jobs that a step of a view leaves to be requested are those of items, those that were left
before, and those that the event leaves that the step takes. -/
theorem Transition.draws {now : Int64} {d : Dialog} {op : Operation} {r : Reply}
    (h : Transition now d op r) (hitems : ∀ item, P (Job.ofItem item))
    (hd : ∀ job ∈ d.outstanding, P job)
    (hop : ∀ e ∈ op.handled, ∀ job ∈ e.report.outstanding, P job) :
    (∀ job ∈ r.turn.dialog.outstanding, P job) ∧
      ∀ task, .start task ∈ r.turn.effects →
        ∀ job ∈ (Activity.unstarted task).outstanding, P job := by
  have hnone {d : Dialog} (h : d.session.bind Session.pendingRetry = none) :
      ∀ job ∈ d.outstanding, P job := by
    rw [Dialog.outstanding_of_none h]
    exact List.forall_mem_nil _
  have hkept {phase : Phase} {s s' : Session} (hs : d.session = some s)
      (hr : s'.pendingRetry = s.pendingRetry) :
      ∀ job ∈ (d.within phase s').outstanding, P job := by
    have heq : (d.within phase s').outstanding = d.outstanding := by
      simp [Dialog.outstanding, Dialog.within, hs, hr]
    rw [heq]
    exact hd
  have hbatch {s : Session} {queue : JobQueue} (hqueue : ∀ job ∈ queue.toList, P job) :
      ∀ task, .start task ∈ d.batchEffects s queue →
        ∀ job ∈ (Activity.unstarted task).outstanding, P job := by
    intro task ht
    simp only [Dialog.batchEffects, List.mem_cons, List.not_mem_nil, or_false, reduceCtorEq,
      Effect.start.injEq, false_or] at ht
    rcases ht with rfl | rfl
    · exact List.forall_mem_nil _
    · exact hqueue
  have hopening {source : FeedSource} {token : SessionToken} {task : Task}
      (ht : .start task ∈ source.opening token) :
      ∀ job ∈ (Activity.unstarted task).outstanding, P job := by
    obtain rfl : task = .load token source.call := by simpa [FeedSource.opening] using ht
    exact List.forall_mem_nil _
  cases h with
  | refused | unopened | unfailed | unheeded => exact ⟨hd, by simp [Turn.idle]⟩
  | unchecked | progressed => exact ⟨hd, by simp⟩
  | opened source => exact ⟨hnone rfl, fun _ => hopening⟩
  | reopened source s =>
    refine ⟨hnone rfl, fun task ht => ?_⟩
    rcases List.mem_append.mp ht with ht | ht
    · exact absurd ht (not_started_closing s)
    · exact hopening ht
  | cancelled s => exact ⟨hnone rfl, fun _ ht => absurd ht (not_started_closing s)⟩
  | loadFailed | completed =>
    refine ⟨hnone rfl, fun task ht => ?_⟩
    simp [not_started_closing, not_started_signOff] at ht
  | filtered _ s hp hs | renamed _ s hp hs =>
    refine ⟨?_, fun _ ht => absurd ht (not_started_refresh _ now)⟩
    rw [Dialog.outstanding_refresh]
    exact hkept hs rfl
  | fetched checked queue s hp hs hq =>
    refine ⟨hnone rfl, hbatch ?_⟩
    rw [JobQueue.toList_of_ofSelection hq]
    exact List.forall_mem_map.mpr fun item _ => hitems item
  | retried failure s hp hs hr =>
    rw [Dialog.outstanding_of_session hs hr] at hd
    exact ⟨hnone rfl, hbatch hd⟩
  | loaded items s hp hs => exact ⟨hkept hs rfl, by simp [Dialog.tableEffects]⟩
  | timeElapsed s hp hs => exact ⟨hkept hs rfl, by simp⟩
  | halted failure s hp hs =>
    refine ⟨?_, by simp [not_started_signOff]⟩
    have hleft := hop _ (List.mem_singleton.mpr rfl)
    exact hleft
  | brokenOff _ s hp hs => exact ⟨hkept hs rfl, by simp [not_started_signOff]⟩

/-! ## Runs of a desk -/

namespace Desk

variable {σ : Type} {remote : Remote σ} {desk : Desk σ}

structure Draws (P : Job → Prop) (desk : Desk σ) : Prop where
  loads : desk.LoadsItems
  retained : ∀ job ∈ desk.dialog.outstanding, P job
  working : ∀ t ∈ desk.tasks, ∀ job ∈ t.activity.outstanding, P job
  reported : ∀ e ∈ desk.queue, ∀ job ∈ e.report.outstanding, P job
  called : ∀ request, .appendUrl request ∈ desk.remoteCalls → ∃ job, P job ∧ request.name = job.name

theorem draws_create (settings : DialogSettings) (wallClock : Int64) (s : σ) :
    (create settings wallClock s).Draws P where
  loads := ⟨Dialog.coherent_create settings, by simp [create]⟩
  retained := by simp [create, Dialog.create, Dialog.outstanding]
  working := by simp [create]
  reported := by simp [create]
  called := by simp [create]

theorem Draws.follow {op : Operation} (h : desk.Draws P) (hitems : ∀ item, P (Job.ofItem item))
    (hop : ∀ e ∈ op.handled, ∀ job ∈ e.report.outstanding, P job) : (desk.after op).Draws P := by
  have hloads := h.loads.after op
  obtain ⟨r, ht, -, heq⟩ := after_transition h.loads.coherent op
  obtain ⟨hretained, hstarted⟩ := ht.draws hitems h.retained hop
  rw [heq] at hloads ⊢
  refine ⟨hloads, hretained, fun t hmem => ?_, h.reported, h.called⟩
  rcases mem_foldl_tasksAfter hmem with hmem | ⟨task, hstart, rfl⟩
  · exact h.working t hmem
  · exact hstarted task hstart

theorem Draws.handleNext (h : desk.Draws P) (hitems : ∀ item, P (Job.ofItem item)) :
    desk.handleNext.Draws P := by
  unfold Desk.handleNext
  split
  · exact h
  next event rest hq =>
    have hreported := h.reported
    rw [hq, List.forall_mem_cons] at hreported
    refine Draws.follow ⟨⟨h.loads.coherent, h.loads.loads⟩, h.retained, h.working, hreported.2,
      h.called⟩ hitems ?_
    exact List.forall_mem_singleton.mpr hreported.1

theorem Draws.goOn (h : desk.Draws P) (index : Nat) : (desk.goOn remote index).Draws P := by
  have hloads : (desk.goOn remote index).LoadsItems := h.loads.goOn index
  rcases goOn_resume remote desk index with ⟨-, heq⟩ | ⟨task, time, hget, heq⟩
  · rw [heq]
    exact h
  · have hmem := List.mem_of_getElem? hget
    have hdraws : (task.activity.resume remote time desk.remote).Draws P :=
      Activity.resume_draws (h.loads.loads task hmem) (h.working task hmem) desk.remote
    rw [heq] at hloads ⊢
    refine ⟨hloads, h.retained, ?_, ?_, fun request hcall => ?_⟩
    · refine List.forall_mem_append.mpr ⟨fun t ht => ?_, hdraws.next⟩
      exact h.working t (List.mem_of_mem_eraseIdx ht)
    · simp only [absorb]
      split
      · exact List.forall_mem_append.mpr ⟨h.reported, hdraws.events⟩
      · exact h.reported
    · rcases List.mem_append.mp hcall with hcall | hcall
      · exact h.called request hcall
      · exact hdraws.calls request hcall

theorem Draws.move {m : Move} (h : desk.Draws P) (hitems : ∀ item, P (Job.ofItem item))
    (hm : ∀ e ∈ m.handedIn, ∀ job ∈ e.report.outstanding, P job) :
    (desk.move remote m).Draws P := by
  cases m with
  | operate op => exact h.follow hitems hm
  | handleNext => exact h.handleNext hitems
  | goOn index => exact h.goOn index
  | settle => exact settle_induction (fun _ h => h.handleNext hitems) (fun _ i h => h.goOn i) h
  | dismissNext =>
    exact ⟨⟨h.loads.coherent, h.loads.loads⟩, h.retained, h.working,
      fun e he => h.reported e (List.mem_of_mem_tail he), h.called⟩
  | pass | stopListening =>
    exact ⟨⟨h.loads.coherent, h.loads.loads⟩, h.retained, h.working, h.reported, h.called⟩

/-- What holds of the jobs of all items, and of those that events from elsewhere bring in, holds of
all jobs of a run. -/
theorem Draws.moves {ms : List Move} (h : desk.Draws P) (hitems : ∀ item, P (Job.ofItem item))
    (hms : ∀ e ∈ ms.flatMap Move.handedIn, ∀ job ∈ e.report.outstanding, P job) :
    (desk.moves remote ms).Draws P := by
  induction ms generalizing desk with
  | nil => exact h
  | cons m ms ih =>
    rw [List.flatMap_cons, List.forall_mem_append] at hms
    exact ih (h.move hitems hms.1) hms.2

/-- Whether a failed batch that an event from elsewhere tells of has a job of a name. -/
def BringsIn (ms : List Move) (name : String) : Prop :=
  ∃ e ∈ ms.flatMap Move.handedIn, ∃ job ∈ e.report.outstanding, job.name = name

end Desk

/-- Every name gets the extension at its end, and so has the name of every item that is requested:
in a batch of checked items and in all its retries, whatever is answered, and in every run of a
desk that gets no events from elsewhere. An event from elsewhere can bring in other names, and
nothing else can. -/
theorem requested_names_end_in_extension {σ : Type} (remote : Remote σ) (settings : DialogSettings)
    (wallClock : Int64) (s : σ) (ms : List Move) :
    (∀ name, Text.GetsExtension name (Text.ensureNzbExtension name)) ∧
      (∀ append : AppendRequest → σ → Answer Bool × σ, ∀ defaults listener retries items checked,
        ∀ queue, JobQueue.ofSelection? items checked = some queue →
          ∀ run ∈ dispatchRetrying append defaults listener retries queue s,
            ∀ request ∈ run.requests, Text.EndsInNzb request.name) ∧
      ∀ request,
        .appendUrl request ∈ ((Desk.create settings wallClock s).moves remote ms).remoteCalls →
          (Text.EndsInNzb request.name ∨ Desk.BringsIn ms request.name) ∧
            (ms.flatMap Move.handedIn = [] → Text.EndsInNzb request.name) := by
  refine ⟨Text.getsExtension, ?_, fun request hcall => ?_⟩
  · intro append defaults listener retries items checked queue hqueue run hrun request hmem
    obtain ⟨job, hjob, rfl⟩ := dispatchRetrying_draws retries queue s run hrun request hmem
    rw [JobQueue.toList_of_ofSelection hqueue] at hjob
    obtain ⟨item, -, rfl⟩ := List.mem_map.mp hjob
    exact Text.endsInNzb_ensureNzbExtension item.filename
  · have hdraws : ((Desk.create settings wallClock s).moves remote ms).Draws
        fun job => Text.EndsInNzb job.name ∨ Desk.BringsIn ms job.name := by
      refine (Desk.draws_create settings wallClock s).moves ?_ ?_
      · exact fun item => .inl (Text.endsInNzb_ensureNzbExtension item.filename)
      · exact fun e he job hjob => .inr ⟨e, he, job, hjob, rfl⟩
    obtain ⟨job, hjob, hname⟩ := hdraws.called request hcall
    rw [hname]
    refine ⟨hjob, fun hown => hjob.resolve_right ?_⟩
    rintro ⟨e, he, -⟩
    rw [hown] at he
    cases he

end FeedDesk
