import FeedDesk.Proofs.Desk.Conservation
import FeedDesk.Proofs.Desk.Stages
import FeedDesk.Proofs.Desk.Trails
import FeedDesk.Proofs.Dialog.Outcomes

/-!
# What the host hears of a batch

While a batch is being sent the host hears of every acknowledged job once and in order, and of no
other progress. What a batch has reported is at any time what the host has heard followed by what
waits to be handled, so at the end of the batch the host has heard all of it.
-/
namespace FeedDesk

def HostCall.progress? : HostCall → Option BatchProgress
  | .progress done total => some ⟨done, total⟩
  | _ => none

def HostCall.fetched? : HostCall → Option Nat
  | .notify (.fetched count) => some count
  | _ => none

def HostCall.alert? : HostCall → Option (String × String)
  | .alert heading message => some (heading, message)
  | _ => none

/-- Whether a call is one of those that are made while a batch is being sent. -/
def HostCall.Passing : HostCall → Prop
  | .progress .. | .transmit _ => True
  | _ => False

/-- A batch has completed with all its jobs acknowledged: the view is closed, and after that the
operator is told once how many jobs were queued. -/
structure Dialog.Completed (jobs : JobQueue) (record : List Attempt) (calls : List HostCall)
    (d : Dialog) : Prop where
  complete : (acknowledged record).length = jobs.size
  closed : d.phase = .closed
  announced : calls.filterMap HostCall.fetched? = [jobs.size]
  silent : calls.filterMap HostCall.alert? = []
  after : ∃ early, calls = early ++
    [.loading false, .clearTable, .resumeRefresh, .notify (.fetched jobs.size)]

/-- A batch has ended at a job: the view is ready, there was one alert, and the failure that is kept
for a retry counts the acknowledged jobs and those behind the job that failed. -/
structure Dialog.Halted (jobs : JobQueue) (record : List Attempt) (calls : List HostCall)
    (d : Dialog) : Prop where
  short : (acknowledged record).length < jobs.size
  ready : d.phase = .ready
  unannounced : calls.filterMap HostCall.fetched? = []
  kept : ∃ s failure, d.session = some s ∧ s.pendingRetry = some failure ∧
    failure.completed = (acknowledged record).length ∧
    failure.remaining.length = jobs.size - (acknowledged record).length - 1 ∧
    calls.filterMap HostCall.alert? = [("Error", failure.report)]

/-- What the host and the view have of a batch of some jobs that has ended, after its attempts and
the calls to the host. -/
structure Dialog.Concluded (defaults : DispatchDefaults) (jobs : JobQueue) (record : List Attempt)
    (calls : List HostCall) (d : Dialog) : Prop where
  nonempty : 1 ≤ jobs.size
  requests : record.map Prod.fst <+: jobs.toList.map (Job.request defaults)
  progress : calls.filterMap HostCall.progress? = progressTo jobs.size (acknowledged record).length
  outcome : d.Completed jobs record calls ∨ d.Halted jobs record calls

/-- A view that is sending a batch, with the tasks under way and the events that wait. The calls are
those to the host since the batch began. -/
structure Dialog.Sending (w : BatchWork) (jobs : JobQueue) (record : List Attempt)
    (calls : List HostCall) (d : Dialog) (tasks : List Running) (queue : List Event) : Prop where
  phase : d.phase = .dispatching
  session : ∃ s, d.session = some s ∧ s.token = w.token ∧ s.batch = w.batch
  passing : ∀ call ∈ calls, call.Passing
  stage : ∃ act, w.Stage jobs record ((calls.filterMap HostCall.progress?).map BatchProgress.report
      ++ newsFor w.token queue) act ∧
    ∀ t ∈ tasks, t.activity.kind = .dispatch → act = some t.activity

/-- A view that is no longer sending a batch. Nothing is said of a batch that broke off. -/
structure Dialog.Ended (w : BatchWork) (jobs : JobQueue) (record : List Attempt)
    (calls : List HostCall) (d : Dialog) : Prop where
  idle : d.phase = .ready ∨ d.phase = .closed
  concluded : (∀ a ∈ record, ∀ text, a.2 ≠ .breaks text) → d.Concluded w.defaults jobs record calls

/-! ## Calls while a batch is being sent -/

section
variable {calls : List HostCall}

theorem passing_signOff (s : Session) : ∀ call ∈ hostCallsOf s.signOff, call.Passing := by
  unfold Session.signOff
  split <;> simp [HostCall.Passing]

theorem filterMap_of_passing {α : Type} {f : HostCall → Option α}
    (h : ∀ call ∈ calls, call.Passing) (hp : ∀ done total, f (.progress done total) = none)
    (ht : ∀ visible, f (.transmit visible) = none) : calls.filterMap f = [] := by
  refine List.filterMap_eq_nil_iff.mpr fun call hmem => ?_
  have hpassing := h call hmem
  cases call with
  | progress done total => exact hp done total
  | transmit visible => exact ht visible
  | _ => exact hpassing.elim

theorem progress_signOff (s : Session) :
    (hostCallsOf s.signOff).filterMap HostCall.progress? = [] := by
  unfold Session.signOff
  split <;> rfl

end

/-! ## Steps of a view that is sending a batch -/

theorem acknowledges_of_refused {answer : Answer Bool} {error : RemoteError}
    (h : refusal? answer = some error) : (CallOutcome.answers answer).acknowledges = false := by
  rw [acknowledges_of_refusal, h]
  rfl

theorem Dialog.concluded_completed (defaults : DispatchDefaults) (jobs : JobQueue)
    {early : List HostCall} {d : Dialog} (hp : d.phase = .closed)
    (he : ∀ call ∈ early, call.Passing)
    (hh : early.filterMap HostCall.progress? = progressTo jobs.size jobs.size) :
    d.Concluded defaults jobs (acceptances defaults jobs.toList)
      (early ++ [.loading false, .clearTable, .resumeRefresh, .notify (.fetched jobs.size)]) := by
  have hall : (acknowledged (acceptances defaults jobs.toList)).length = jobs.size := by
    rw [acknowledged_acceptances, List.length_map, JobQueue.size]
  refine ⟨Nat.succ_pos _, ?_, ?_, .inl ⟨hall, hp, ?_, ?_, early, rfl⟩⟩
  · simp [acceptances, Function.comp_def]
  · rw [hall, List.filterMap_append, hh]
    exact List.append_nil _
  · rw [List.filterMap_append, filterMap_of_passing he (fun _ _ => rfl) fun _ => rfl]
    rfl
  · rw [List.filterMap_append, filterMap_of_passing he (fun _ _ => rfl) fun _ => rfl]
    rfl

theorem Dialog.concluded_halted {defaults : DispatchDefaults} {jobs : JobQueue}
    {early : List HostCall} {d : Dialog} {s : Session} {done rest : List Job} {job : Job}
    {answer : Answer Bool} {error : RemoteError}
    (hjobs : jobs.toList = done ++ job :: rest) (hr : refusal? answer = some error)
    (hp : d.phase = .ready) (hs : d.session = some s)
    (hretry : s.pendingRetry = some ⟨job, error, rest, done.length⟩)
    (he : ∀ call ∈ early, call.Passing)
    (hh : early.filterMap HostCall.progress? = progressTo jobs.size done.length) :
    d.Concluded defaults jobs
      (acceptances defaults done ++ [(job.request defaults, .answers answer)])
      (early ++ [.controls true, .alert "Error"
        (BatchFailure.report ⟨job, error, rest, done.length⟩)]) := by
  have hsize : jobs.size = done.length + (rest.length + 1) := by
    rw [JobQueue.size, hjobs, List.length_append, List.length_cons]
  have hcount : (acknowledged (acceptances defaults done ++
      [(job.request defaults, .answers answer)])).length = done.length := by
    rw [acknowledged, List.filter_append, List.map_append, ← acknowledged,
      acknowledged_acceptances]
    simp [acknowledges_of_refused hr]
  refine ⟨Nat.succ_pos _, ?_, ?_, .inr ⟨?_, hp, ?_, s, _, hs, hretry, ?_, ?_, ?_⟩⟩
  · rw [hjobs]
    simp [acceptances, Function.comp_def]
  · rw [hcount, List.filterMap_append, hh]
    exact List.append_nil _
  · omega
  · rw [List.filterMap_append, filterMap_of_passing he (fun _ _ => rfl) fun _ => rfl]
    rfl
  · exact hcount.symm
  · change rest.length = _
    omega
  · rw [List.filterMap_append, filterMap_of_passing he (fun _ _ => rfl) fun _ => rfl]
    rfl

namespace Dialog.Sending

variable {w : BatchWork} {jobs : JobQueue} {record : List Attempt} {calls : List HostCall}
  {d : Dialog} {tasks : List Running} {queue : List Event} {s : Session} {event : Event}

theorem token_eq (hc : d.Sending w jobs record calls tasks queue) (hs : d.session = some s) :
    s.token = w.token ∧ s.batch = w.batch := by
  obtain ⟨s', hs', h⟩ := hc.session
  obtain rfl : s = s' := Option.some.inj (hs.symm.trans hs')
  exact h

theorem pass {s' : Session} {new : List HostCall}
    (hc : d.Sending w jobs record calls tasks (event :: queue)) (hs : d.session = some s)
    (ht : s'.token = s.token) (hb : s'.batch = s.batch)
    (hother : ¬ (event.token = w.token ∧ event.report.isNews = true))
    (hn : ∀ call ∈ new, ∃ visible, call = .transmit visible) :
    (d.within .dispatching s').Sending w jobs record (calls ++ new) tasks queue := by
  obtain ⟨htoken, hbatch⟩ := hc.token_eq hs
  obtain ⟨act, hstage, htasks⟩ := hc.stage
  have hnone : new.filterMap HostCall.progress? = [] := by
    refine List.filterMap_eq_nil_iff.mpr fun call hmem => ?_
    obtain ⟨visible, rfl⟩ := hn call hmem
    rfl
  refine ⟨rfl, ⟨s', rfl, ht.trans htoken, hb.trans hbatch⟩, ?_, act, ?_, htasks⟩
  · intro call hmem
    rcases List.mem_append.mp hmem with hmem | hmem
    · exact hc.passing call hmem
    · obtain ⟨visible, rfl⟩ := hn call hmem
      trivial
  · rw [newsFor_cons_of_other hother] at hstage
    rwa [List.filterMap_append, hnone, List.append_nil]

theorem progressed {done total : Nat}
    (hc : d.Sending w jobs record calls tasks (⟨s.token, .progress done total⟩ :: queue))
    (hs : d.session = some s) :
    d.Sending w jobs record (calls ++ [.progress done total]) tasks queue := by
  obtain ⟨htoken, -⟩ := hc.token_eq hs
  obtain ⟨act, hstage, htasks⟩ := hc.stage
  refine ⟨hc.phase, hc.session, ?_, act, ?_, htasks⟩
  · intro call hmem
    rcases List.mem_append.mp hmem with hmem | hmem
    · exact hc.passing call hmem
    · rw [List.mem_singleton.mp hmem]
      trivial
  · rw [htoken, newsFor_cons_of_news w.token rfl] at hstage
    rw [List.filterMap_append, List.map_append, List.append_assoc]
    exact hstage

theorem closing {report : Report}
    (hc : d.Sending w jobs record calls tasks (⟨s.token, report⟩ :: queue))
    (hs : d.session = some s) (he : report.ends? = some .dispatch) :
    w.Closing jobs record (calls.filterMap HostCall.progress?) report := by
  obtain ⟨htoken, -⟩ := hc.token_eq hs
  obtain ⟨act, hstage, -⟩ := hc.stage
  rw [htoken, newsFor_cons_of_news w.token (Report.isNews_of_ends he)] at hstage
  exact hstage.closing rfl he

theorem heeded (hc : d.Sending w jobs record calls tasks (event :: queue))
    (ht : event.token = w.token) (hn : event.report.isNews = true) : d.Heeds event := by
  obtain ⟨s, hs, htoken, hbatch⟩ := hc.session
  obtain ⟨act, hstage, -⟩ := hc.stage
  obtain ⟨_, report⟩ := event
  subst ht
  rw [newsFor_cons_of_news w.token hn] at hstage
  refine ⟨s, hs, htoken, ?_⟩
  rcases hstage.told_of (List.mem_append_right _ List.mem_cons_self) with
    ⟨p, rfl⟩ | ⟨result, rfl⟩ | ⟨text, rfl⟩
  · simp [Awaits, hc.phase, BatchProgress.report]
  · simp [Awaits, hc.phase, hbatch]
  · simp [Awaits, hc.phase]

end Dialog.Sending

/-- A view that is sending a batch goes on with it when an event is handled, or the batch has
ended. -/
theorem Transition.sending {now : Int64} {d : Dialog} {op : Operation} {r : Reply}
    (h : Transition now d op r) {event : Event} (hop : op = .deliver event) {w : BatchWork}
    {jobs : JobQueue} {record : List Attempt} {calls : List HostCall} {tasks : List Running}
    {queue : List Event} (hc : d.Sending w jobs record calls tasks (event :: queue)) (time : Nat) :
    r.turn.dialog.Sending w jobs record (calls ++ hostCallsOf r.turn.effects)
        (r.turn.effects.foldl (tasksAfter time) tasks) queue ∨
      r.turn.dialog.Ended w jobs record (calls ++ hostCallsOf r.turn.effects) := by
  have passing {s : Session} : ∀ call ∈ calls ++ hostCallsOf s.signOff, call.Passing := by
    intro call hmem
    rcases List.mem_append.mp hmem with hmem | hmem
    · exact hc.passing call hmem
    · exact passing_signOff s call hmem
  have heard {s : Session} : (calls ++ hostCallsOf s.signOff).filterMap HostCall.progress? =
      calls.filterMap HostCall.progress? := by
    rw [List.filterMap_append, progress_signOff, List.append_nil]
  cases h with
  | refused _ hne => exact absurd hne (hop ▸ id)
  | unheeded event' he =>
    obtain rfl := Operation.deliver.inj hop
    obtain ⟨s, hs, -⟩ := hc.session
    -- An event about the batch would have been heeded.
    have hsame : d = d.within .dispatching s := by
      rw [← hc.phase, Dialog.within, ← hs]
    rw [hsame]
    exact .inl (hc.pass hs rfl rfl (fun hn => he (hc.heeded hn.1 hn.2)) (by simp [Turn.idle]))
  | loadFailed _ _ _ hp | loaded _ _ hp =>
    rw [hc.phase] at hp
    cases hp
  | progressed done total s hp hs =>
    obtain rfl := Operation.deliver.inj hop
    exact .inl (hc.progressed hs)
  | timeElapsed s hp hs =>
    obtain rfl := Operation.deliver.inj hop
    exact .inl (hc.pass hs rfl rfl (by simp [Report.isNews]) (by simp))
  | completed done s hp hs =>
    obtain rfl := Operation.deliver.inj hop
    obtain ⟨rfl, hheard, rfl⟩ := (hc.closing hs rfl).of_completed
    refine .inr ⟨.inr rfl, fun _ => ?_⟩
    have hcalls : calls ++ hostCallsOf (s.signOff ++ s.unsigned.closing ++
        [.host (.notify (.fetched jobs.toList.length))]) = calls ++ hostCallsOf s.signOff ++
          [.loading false, .clearTable, .resumeRefresh, .notify (.fetched jobs.size)] := by
      simp [Session.closing, Session.signOff, Session.unsigned, JobQueue.size]
    rw [hcalls]
    exact d.left.concluded_completed w.defaults jobs rfl passing (heard.trans hheard)
  | halted failure s hp hs =>
    obtain rfl := Operation.deliver.inj hop
    obtain ⟨done, answer, hjobs, hr, hdone, rfl, hheard⟩ := (hc.closing hs rfl).of_halted
    refine .inr ⟨.inl rfl, fun _ => ?_⟩
    rw [hostCallsOf_append, ← List.append_assoc]
    obtain ⟨job, error, rest, completed⟩ := failure
    subst hdone
    exact Dialog.concluded_halted hjobs hr rfl rfl rfl passing (heard.trans hheard)
  | brokenOff text s hp hs =>
    obtain rfl := Operation.deliver.inj hop
    refine .inr ⟨.inl rfl, fun hunbroken => ?_⟩
    obtain ⟨a, ha, hbreaks⟩ := (hc.closing hs rfl).of_brokenOff
    exact absurd hbreaks (hunbroken a ha text)
  | _ => cases hop

/-- A step that starts a batch of some jobs sends them for a ready session. -/
theorem Transition.sends {now : Int64} {d : Dialog} {op : Operation} {r : Reply}
    (h : Transition now d op r) {token : SessionToken} {batch : UInt64}
    {defaults : DispatchDefaults} {jobs : JobQueue}
    (hstart : .start (.dispatch token batch defaults jobs) ∈ r.turn.effects) :
    d.phase = .ready ∧ ∃ s, d.session = some s ∧
      r.turn = ⟨d.within .dispatching { s with pendingRetry := none, batch := s.batch + 1 },
        d.batchEffects s jobs⟩ := by
  cases h with
  | refused | unopened | unfailed | unheeded => cases hstart
  | opened | reopened | cancelled | loadFailed | completed | halted | brokenOff =>
    simp [FeedSource.opening, not_started_closing, not_started_signOff] at hstart
  | filtered | renamed => exact absurd hstart (not_started_refresh _ _)
  | unchecked | progressed | timeElapsed => simp at hstart
  | loaded => simp [Dialog.tableEffects] at hstart
  | fetched _ queue s hp hs | retried failure s hp hs =>
    simp only [Dialog.batchEffects, List.mem_cons, Effect.start.injEq, Task.dispatch.injEq,
      reduceCtorEq, List.not_mem_nil, or_false, false_or] at hstart
    obtain ⟨-, -, -, rfl⟩ := hstart
    exact ⟨hp, s, hs, rfl⟩

/-- A batch has just begun: nothing is attempted and nothing told of it. -/
theorem Dialog.sending_start {d : Dialog} {tasks : List Running} {queue : List Event}
    {s : Session} (hx : d.Exclusive tasks queue) (ht : d.Trailed queue) (hp : d.phase = .ready)
    (hs : d.session = some s) (time : Nat) (jobs : JobQueue) :
    (d.within .dispatching { s with pendingRetry := none, batch := s.batch + 1 }).Sending
      ⟨s.token, s.batch + 1, s.defaults, jobs.size⟩ jobs [] []
      ((d.batchEffects s jobs).foldl (tasksAfter time) tasks) queue := by
  obtain ⟨htasks, hqueue⟩ := hx.ready_idle hp hs
  have hquiet : newsFor s.token queue = [] := by
    refine newsFor_eq_nil fun e he hn => ?_
    cases hr : e.report with
    | progress done total => exact ht.quiet s hs (by simp [hp]) e he ⟨hn.1, done, total, hr⟩
    | finished => exact hqueue e he hn.1 (by rw [hr]; rfl)
    | panicked kind text =>
      cases kind with
      | dispatch => exact hqueue e he hn.1 (by rw [hr]; rfl)
      | load | timer | unrelated => simp [hr, Report.isNews] at hn
    | loaded | timeElapsed => simp [hr, Report.isNews] at hn
  refine ⟨rfl, ⟨_, rfl, rfl, rfl⟩, by simp,
    some (.unstarted (.dispatch s.token (s.batch + 1) s.defaults jobs)), ?_, ?_⟩
  · simp only [hquiet]
    exact .unstarted rfl
  · intro t hmem hk
    rw [foldl_tasksAfter_batch, List.mem_append, List.mem_cons, List.mem_singleton] at hmem
    rcases hmem with hmem | rfl | rfl
    · exact absurd hk (htasks t hmem)
    · cases hk
    · rfl

/-! ## Tasks that go on -/

/-- What a task does attempts nothing and tells nothing of a batch. -/
structure Burst.Aside {σ : Type} (s : σ × List Attempt) (burst : Burst (σ × List Attempt)) :
    Prop where
  record : burst.remote.2 = s.2
  next : ∀ t ∈ burst.next.toList, t.activity.kind ≠ .dispatch
  events : ∀ e ∈ burst.events, e.report.isNews = false

theorem Activity.resume_aside {σ : Type} {remote : Remote σ} {now : Nat} {a : Activity}
    (h : a.kind ≠ .dispatch) (s : σ × List Attempt) :
    (a.resume remote.recording now s).Aside s := by
  cases a with
  | unstarted task =>
    cases task with
    | load | timer => exact ⟨rfl, by simp [resume, Task.start, kind], by simp [resume, Task.start]⟩
    | dispatch => exact absurd rfl h
  | loading _ outcome =>
    refine ⟨rfl, by simp [resume], ?_⟩
    cases outcome <;> simp [resume, loadEvent, Report.isNews]
  | waiting => exact ⟨rfl, by simp [resume], by simp [resume, Report.isNews]⟩
  | appending => exact absurd rfl h

namespace Dialog.Sending

variable {σ : Type} {remote : Remote σ} {w : BatchWork} {jobs : JobQueue} {past record : List Attempt}
  {calls : List HostCall} {d : Dialog} {tasks : List Running} {queue : List Event} {now index : Nat}
  {task : Running} {state : σ × List Attempt}

theorem absorb (hc : d.Sending w jobs record calls tasks queue) (hx : d.Exclusive tasks queue)
    (hget : tasks[index]? = some task) (hs : state.2 = past ++ record) :
    ∃ record', (task.activity.resume remote.recording now state).remote.2 = past ++ record' ∧
      d.Sending w jobs record' calls
        (tasks.eraseIdx index ++ (task.activity.resume remote.recording now state).next.toList)
        (queue ++ (task.activity.resume remote.recording now state).events) := by
  obtain ⟨act, hstage, htasks⟩ := hc.stage
  by_cases hk : task.activity.kind = .dispatch
  · obtain ⟨-, hothers, -⟩ := hx.batch_alone hget hk
    obtain rfl := htasks task (List.mem_of_getElem? hget) hk
    have hreaches : (task.activity.resume remote.recording now state).Reaches w jobs past
        ((calls.filterMap HostCall.progress?).map BatchProgress.report ++ newsFor w.token queue) :=
      hstage.resume hs
    obtain ⟨record', hrecord', hstage'⟩ := hreaches
    refine ⟨record', hrecord', hc.phase, hc.session, hc.passing,
      (task.activity.resume remote.recording now state).next.map Running.activity, ?_, ?_⟩
    · rw [newsFor_append, ← List.append_assoc]
      exact hstage'
    · intro t hmem hkind
      rcases List.mem_append.mp hmem with hmem | hmem
      · exact absurd hkind (hothers t hmem)
      · rw [Option.mem_toList] at hmem
        rw [hmem, Option.map_some]
  · obtain ⟨hsame, hnext, hevents⟩ : (task.activity.resume remote.recording now state).Aside state :=
      Activity.resume_aside hk state
    refine ⟨record, hsame.trans hs, hc.phase, hc.session, hc.passing, act, ?_, ?_⟩
    · have hnone : newsFor w.token (task.activity.resume remote.recording now state).events = [] :=
        newsFor_eq_nil fun e he hn => by simp [hevents e he] at hn
      rwa [newsFor_append, hnone, List.append_nil]
    · intro t hmem hkind
      rcases List.mem_append.mp hmem with hmem | hmem
      · exact htasks t (List.mem_of_mem_eraseIdx hmem) hkind
      · exact absurd hkind (hnext t hmem)

end Dialog.Sending

end FeedDesk
