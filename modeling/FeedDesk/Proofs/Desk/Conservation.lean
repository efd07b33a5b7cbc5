import FeedDesk.Proofs.Dispatch.Selection
import FeedDesk.Proofs.Desk.Accounts
import FeedDesk.Proofs.Desk.Order

/-!
# Every job is queued once

The jobs of a fetch are attempted in turn over the batch of the fetch and all retries that follow
it. At any time the jobs acknowledged so far and those that a retry would send make up the jobs of
the fetch, in order, so a retry neither skips a job nor sends an acknowledged one again.
-/
namespace FeedDesk

/-! ## What the view keeps -/

def Announced (calls : List HostCall) : Prop := ∃ n, .notify (.fetched n) ∈ calls

/-- A view, its tasks and the events that wait account for the jobs of a fetch, of which some are
left after a record of attempts. The calls are those to the host since the fetch. -/
structure Dialog.Conserving (defaults : DispatchDefaults) (jobs : List Job)
    (record : List Attempt) (calls : List HostCall) (d : Dialog) (tasks : List Running)
    (queue : List Event) : Prop where
  inTurn : (leftOver defaults jobs record).isSome
  working : ∀ t ∈ tasks, t.activity.Accounts defaults jobs record
  reported : ∀ s, d.session = some s → ∀ e ∈ queue, e.token = s.token →
    e.report.Accounts (leftOver defaults jobs record)
  retained : ∀ s, d.session = some s → ∀ failure, s.pendingRetry = some failure →
    s.defaults = defaults ∧ leftOver defaults jobs record = some failure.retryQueue.toList
  sending : ∀ s, d.session = some s → d.phase = .dispatching → s.defaults = defaults
  completed : Announced calls → leftOver defaults jobs record = some [] ∧
    d.phase ≠ .dispatching ∧ ∀ s, d.session = some s → s.pendingRetry = none

theorem announced_append {a b : List HostCall} :
    Announced (a ++ b) ↔ Announced a ∨ Announced b := by
  simp [Announced, exists_or]

@[simp] theorem not_announced_nil : ¬ Announced [] := by
  simp [Announced]

theorem announced_cons {call : HostCall} {calls : List HostCall} :
    Announced (call :: calls) ↔ (∃ n, call = .notify (.fetched n)) ∨ Announced calls := by
  simp [Announced, exists_or, eq_comm]

theorem not_announced_signOff (s : Session) : ¬ Announced (hostCallsOf s.signOff) := by
  unfold Session.signOff
  split <;> simp [announced_cons]

theorem not_announced_closing (s : Session) : ¬ Announced (hostCallsOf s.closing) := by
  simp [Session.closing, announced_append, announced_cons, not_announced_signOff]

namespace Dialog.Conserving

variable {defaults : DispatchDefaults} {jobs : List Job} {record : List Attempt}
  {calls : List HostCall} {d : Dialog} {tasks : List Running} {queue : List Event} {s : Session}

theorem dequeue {more : List Event} (hc : d.Conserving defaults jobs record calls tasks more)
    (hq : ∀ e ∈ queue, e ∈ more) : d.Conserving defaults jobs record calls tasks queue :=
  ⟨hc.inTurn, hc.working, fun s hs e he => hc.reported s hs e (hq e he), hc.retained, hc.sending,
    hc.completed⟩

/-- Other calls to the host change nothing. -/
theorem quietly {new : List HostCall} (hc : d.Conserving defaults jobs record calls tasks queue)
    (h : ¬ Announced new) : d.Conserving defaults jobs record (calls ++ new) tasks queue where
  inTurn := hc.inTurn
  working := hc.working
  reported := hc.reported
  retained := hc.retained
  sending := hc.sending
  completed ha := hc.completed ((announced_append.mp ha).resolve_right h)

/-- The session goes on with what it had to send and to retry. -/
theorem stay {s' : Session} {phase : Phase}
    (hc : d.Conserving defaults jobs record calls tasks queue) (hs : d.session = some s)
    (ht : s'.token = s.token) (hd : s'.defaults = s.defaults)
    (hr : s'.pendingRetry = s.pendingRetry)
    (hp : phase = .dispatching → d.phase = .dispatching) :
    (d.within phase s').Conserving defaults jobs record calls tasks queue where
  inTurn := hc.inTurn
  working := hc.working
  reported := by
    rintro _ ⟨⟩
    rw [ht]
    exact hc.reported s hs
  retained := by
    rintro _ ⟨⟩
    rw [hd, hr]
    exact hc.retained s hs
  sending := by
    rintro _ ⟨⟩ h
    rw [hd]
    exact hc.sending s hs (hp h)
  completed ha := by
    obtain ⟨hleft, hphase, hretry⟩ := hc.completed ha
    refine ⟨hleft, fun h => hphase (hp h), ?_⟩
    rintro _ ⟨⟩
    rw [hr]
    exact hretry s hs

theorem refreshed {s' : Session} {now : Int64}
    (hc : d.Conserving defaults jobs record calls tasks queue) (hs : d.session = some s)
    (ht : s'.token = s.token) (hd : s'.defaults = s.defaults)
    (hr : s'.pendingRetry = s.pendingRetry) (hfits : s'.Fits .ready) (time : Nat) :
    ((d.within d.phase s').refresh now).dialog.Conserving defaults jobs record
      (calls ++ hostCallsOf ((d.within d.phase s').refresh now).effects)
      (((d.within d.phase s').refresh now).effects.foldl (tasksAfter time) tasks) queue := by
  obtain ⟨⟨items, hi, -⟩, -⟩ := hfits.loaded (.inl rfl)
  rw [refresh_of_items rfl hi]
  have hstay : (d.within d.phase (s'.shown items (d.clock now))).Conserving defaults jobs record
      calls tasks queue := hc.stay hs ht hd hr id
  refine hstay.quietly ?_
  simp [tableEffects, announced_cons]

theorem left {new : List HostCall} (hc : d.Conserving defaults jobs record calls tasks queue)
    (h : Announced new → leftOver defaults jobs record = some []) :
    d.left.Conserving defaults jobs record (calls ++ new) [] queue where
  inTurn := hc.inTurn
  working _ h := by simp at h
  reported _ h := by simp [Dialog.left] at h
  retained _ h := by simp [Dialog.left] at h
  sending _ h := by simp [Dialog.left] at h
  completed ha := by
    refine ⟨?_, by simp [Dialog.left], by simp [Dialog.left]⟩
    rcases announced_append.mp ha with ha | ha
    · exact (hc.completed ha).1
    · exact h ha

theorem entered {new : List HostCall} {opened : Nat} (time : Nat) (source : FeedSource)
    (ho : d.Orderly opened tasks queue) (hfew : opened + 1 < UInt64.size)
    (hc : d.Conserving defaults jobs record calls tasks queue) (h : ¬ Announced new) :
    (d.entered source).Conserving defaults jobs record (calls ++ new)
      ((source.opening d.lastToken.next).foldl (tasksAfter time) []) queue where
  inTurn := hc.inTurn
  working t ht := by
    rw [foldl_tasksAfter_opening, List.nil_append, List.mem_singleton] at ht
    rw [ht]
    trivial
  reported := by
    rintro _ ⟨⟩ e he htoken
    exact absurd htoken (ho.unheard hfew e he)
  retained := by
    rintro _ ⟨⟩ failure hr
    simp [Session.fresh] at hr
  sending _ _ h := by simp [Dialog.entered] at h
  completed ha := by
    refine ⟨(hc.completed ((announced_append.mp ha).resolve_right h)).1, by simp [Dialog.entered],
      ?_⟩
    rintro _ ⟨⟩
    rfl

/-- A batch is sent with what is left. -/
theorem send {s' : Session} (d : Dialog) (time : Nat) (queued : JobQueue)
    (hw : ∀ t ∈ tasks, t.activity.Accounts defaults jobs record)
    (hq : ∀ e ∈ queue, e.token = s.token → e.report.Accounts (leftOver defaults jobs record))
    (ht : s'.token = s.token) (hd : s'.defaults = s.defaults) (hr : s'.pendingRetry = none)
    (hdefaults : s.defaults = defaults)
    (hleft : leftOver defaults jobs record = some queued.toList) (hn : ¬ Announced calls) :
    (d.within .dispatching s').Conserving defaults jobs record calls
      ((d.batchEffects s queued).foldl (tasksAfter time) tasks) queue where
  inTurn := by rw [hleft]; rfl
  working t hmem := by
    rw [foldl_tasksAfter_batch, List.mem_append, List.mem_cons, List.mem_singleton] at hmem
    rcases hmem with hmem | rfl | rfl
    · exact hw t hmem
    · trivial
    · exact ⟨hdefaults, hleft⟩
  reported := by
    rintro _ ⟨⟩
    rw [ht]
    exact hq
  retained := by
    rintro _ ⟨⟩ failure h
    rw [hr] at h
    cases h
  sending := by
    rintro _ ⟨⟩ _
    rw [hd, hdefaults]
  completed ha := absurd ha hn

/-- A batch that ended at a job is kept for a retry of what is left. -/
theorem halt {s' : Session} {new : List HostCall}
    (hc : d.Conserving defaults jobs record calls tasks queue) (hs : d.session = some s)
    (hp : d.phase = .dispatching) (ht : s'.token = s.token) (hd : s'.defaults = s.defaults)
    (hr : ∀ failure, s'.pendingRetry = some failure →
      leftOver defaults jobs record = some failure.retryQueue.toList)
    (h : ¬ Announced new) :
    (d.within .ready s').Conserving defaults jobs record (calls ++ new) tasks queue where
  inTurn := hc.inTurn
  working := hc.working
  reported := by
    rintro _ ⟨⟩
    rw [ht]
    exact hc.reported s hs
  retained := by
    rintro _ ⟨⟩ failure hf
    rw [hd]
    exact ⟨hc.sending s hs hp, hr failure hf⟩
  sending _ _ h := by simp [Dialog.within] at h
  completed ha := by
    have hcalls := (announced_append.mp ha).resolve_right h
    exact absurd hp (hc.completed hcalls).2.1

end Dialog.Conserving

theorem Transition.conserving {now : Int64} {opened : Nat} {defaults : DispatchDefaults}
    {jobs : List Job} {record : List Attempt} {calls : List HostCall} {d : Dialog}
    {tasks : List Running} {queue : List Event} {op : Operation} {r : Reply}
    (h : Transition now d op r) (ho : d.Orderly opened tasks (op.handled ++ queue))
    (hc : d.Conserving defaults jobs record calls tasks (op.handled ++ queue))
    (hfew : opened + op.openings < UInt64.size)
    (hfetch : ∀ checked, op = .fetch checked → r.outcome ≠ .ok ()) (time : Nat) :
    r.turn.dialog.Conserving defaults jobs record (calls ++ hostCallsOf r.turn.effects)
      (r.turn.effects.foldl (tasksAfter time) tasks) queue := by
  have hd : d.Conserving defaults jobs record calls tasks queue :=
    hc.dequeue fun e he => List.mem_append_right _ he
  have hq : d.Orderly opened tasks queue := ho.dequeue (List.sublist_append_right _ _)
  have fits {s : Session} (hs : d.session = some s) (hp : d.phase = .ready) : s.Fits .ready :=
    hp ▸ ho.consistent.session_fits s hs
  cases h with
  | refused | unopened | unfailed | unheeded => exact hd.quietly not_announced_nil
  | unchecked | progressed => exact hd.quietly (by simp [announced_cons])
  | opened source hp =>
    rw [hq.abandoned hp] at hd ⊢
    exact hd.entered time source (hq.abandoned hp ▸ hq) hfew
      (by simp [FeedSource.opening, announced_cons])
  | reopened source s =>
    simp only [List.foldl_append, foldl_tasksAfter_closing]
    refine hd.entered time source hq hfew ?_
    simp [FeedSource.opening, announced_append, announced_cons, not_announced_closing]
  | cancelled s =>
    simp only [foldl_tasksAfter_closing]
    exact hd.left fun ha => absurd ha (not_announced_closing s)
  | loadFailed report e s =>
    simp only [List.foldl_append, foldl_tasksAfter_closing, List.foldl_cons, List.foldl_nil,
      tasksAfter]
    refine hd.left fun ha => absurd ha ?_
    simp [announced_append, announced_cons, not_announced_closing]
  | completed done s hp hs =>
    simp only [List.foldl_append, foldl_tasksAfter_closing, foldl_tasksAfter_signOff,
      List.foldl_cons, List.foldl_nil, tasksAfter]
    exact hd.left fun _ => hc.reported s hs _ List.mem_cons_self rfl
  | filtered filter s hp hs =>
    exact hd.refreshed hs (by rfl) (by rfl) (by rfl) ((fits hs hp).filtered filter) time
  | renamed naming s hp hs =>
    exact hd.refreshed hs (by rfl) (by rfl) (by rfl) ((fits hs hp).renamed naming) time
  | fetched checked => exact absurd rfl (hfetch checked rfl)
  | retried failure s hp hs hr =>
    obtain ⟨hdefaults, hleft⟩ := hd.retained s hs failure hr
    refine .send d time failure.retryQueue hd.working (hd.reported s hs) (by rfl) (by rfl) (by rfl)
      hdefaults hleft ?_
    rw [announced_append]
    rintro (ha | ha)
    · have hnone := (hd.completed ha).2.2 s hs
      rw [hr] at hnone
      cases hnone
    · simp [Dialog.batchEffects, announced_cons] at ha
  | loaded items s hp hs =>
    have hstay : (d.within .ready (s.shown items (d.clock now))).Conserving defaults jobs record
        calls tasks queue := hd.stay hs rfl rfl rfl (by simp)
    exact hstay.quietly (by simp [Dialog.tableEffects, announced_cons])
  | timeElapsed s hp hs =>
    have hstay : (d.within .dispatching { s with transmitVisible := true }).Conserving defaults
        jobs record calls tasks queue := hd.stay hs rfl rfl rfl fun _ => hp
    exact hstay.quietly (by simp [announced_cons])
  | halted failure s hp hs =>
    simp only [List.foldl_append, foldl_tasksAfter_signOff]
    refine hd.halt hs hp (by rfl) (by rfl) ?_ ?_
    · rintro _ ⟨⟩
      exact hc.reported s hs _ List.mem_cons_self rfl
    · simp [announced_append, announced_cons, not_announced_signOff]
  | brokenOff text s hp hs =>
    simp only [List.foldl_append, foldl_tasksAfter_signOff]
    refine hd.halt hs hp (by rfl) (by rfl) ?_ ?_
    · intro failure hr
      exact (hd.retained s hs failure hr).2
    · simp [announced_append, announced_cons, not_announced_signOff]

namespace Dialog.Conserving

variable {defaults : DispatchDefaults} {jobs : List Job} {record : List Attempt}
  {calls : List HostCall} {d : Dialog} {tasks : List Running} {queue : List Event}

/-- When a task adds to the record, the others and the events that wait account for what is left
then as well: only a batch adds to the record, and there is no other batch beside it. -/
theorem others {opened index : Nat} {task : Running} {record' : List Attempt}
    (hc : d.Conserving defaults jobs record calls tasks queue)
    (ho : d.Orderly opened tasks queue) (hget : tasks[index]? = some task)
    (hleft : (leftOver defaults jobs record').isSome)
    (hsame : task.activity.kind ≠ .dispatch → record' = record) :
    d.Conserving defaults jobs record' calls (tasks.eraseIdx index) queue := by
  by_cases hk : task.activity.kind = .dispatch
  · obtain ⟨hphase, htasks, hqueue⟩ := ho.exclusive.batch_alone hget hk
    refine ⟨hleft, ?_, ?_, ?_, hc.sending, ?_⟩
    · exact fun t ht => Activity.accounts_of_kind (htasks t ht) ..
    · exact fun s hs e he htoken => Report.accounts_of_ends (hqueue s hs e he htoken) _
    · intro s hs failure hr
      have hfits := (ho.consistent.session_fits s hs).retry
      rw [hphase, hr] at hfits
      simp at hfits
    · exact fun ha => absurd hphase (hc.completed ha).2.1
  · obtain rfl := hsame hk
    exact ⟨hleft, fun t ht => hc.working t (List.mem_of_mem_eraseIdx ht), hc.reported,
      hc.retained, hc.sending, hc.completed⟩

theorem absorb {σ : Type} {before : List Attempt} {opened index : Nat} {task : Running}
    {burst : Burst (σ × List Attempt)} (hc : d.Conserving defaults jobs record calls tasks queue)
    (ho : d.Orderly opened tasks queue) (hget : tasks[index]? = some task)
    (hb : burst.Accounts defaults jobs before)
    (hsame : task.activity.kind ≠ .dispatch → burst.remote.2 = before ++ record) :
    ∃ record', burst.remote.2 = before ++ record' ∧
      d.Conserving defaults jobs record' calls (tasks.eraseIdx index ++ burst.next.toList)
        (queue ++ burst.events) := by
  obtain ⟨record', hrecord, hleft, hnext, hevents⟩ := hb
  have hothers : d.Conserving defaults jobs record' calls (tasks.eraseIdx index) queue :=
    hc.others ho hget hleft fun hk => List.append_cancel_left (hrecord.symm.trans (hsame hk))
  refine ⟨record', hrecord, hleft, ?_, ?_, hothers.retained, hothers.sending, hothers.completed⟩
  · intro t ht
    rcases List.mem_append.mp ht with ht | ht
    · exact hothers.working t ht
    · exact hnext t ht
  · intro s hs e he htoken
    rcases List.mem_append.mp he with he | he
    · exact hothers.reported s hs e he htoken
    · exact hevents e he

end Dialog.Conserving

/-! ## Runs of a desk -/

namespace Desk

variable {σ : Type} {remote : Remote σ} {opened : Nat} {defaults : DispatchDefaults}
  {jobs : List Job} {start desk : Desk (σ × List Attempt)}

/-- A desk that accounts for the jobs of a fetch, with the attempts at jobs and the calls to the
host that it has made since. -/
def Conserving (defaults : DispatchDefaults) (jobs : List Job)
    (desk start : Desk (σ × List Attempt)) : Prop :=
  ∃ record calls, desk.remote.2 = start.remote.2 ++ record ∧
    desk.hostCalls = start.hostCalls ++ calls ∧
    desk.dialog.Conserving defaults jobs record calls desk.tasks desk.queue

def Fetches (desk : Desk σ) (m : Move) : Prop :=
  ∃ checked, m = .operate (.fetch checked) ∧ (desk.perform (.fetch checked)).1 = .ok ()

def Fetchless (remote : Remote σ) (desk : Desk σ) : List Move → Prop
  | [] => True
  | m :: ms => ¬ desk.Fetches m ∧ Fetchless remote (desk.move remote m) ms

/-- A fetch that takes jobs accounts for the checked items, in order. -/
theorem conserving_fetch {checked : List String} (ho : start.Orderly opened)
    (hfetch : (start.perform (.fetch checked)).1 = .ok ()) :
    ∃ s, start.dialog.session = some s ∧ start.dialog.phase = .ready ∧
      (start.after (.fetch checked)).Conserving s.defaults
        ((JobQueue.selected s.loadedItems checked).map Job.ofItem) start := by
  obtain ⟨r, ht, hperform, heq⟩ := after_transition ho.consistent.coherent (.fetch checked)
  rw [hperform] at hfetch
  rw [heq]
  cases ht with
  | refused | unchecked => cases hfetch
  | fetched _ queue s hp hs hq =>
    refine ⟨s, hs, hp, [], _, (List.append_nil _).symm, rfl, ?_⟩
    obtain ⟨htasks, hqueue⟩ := (Dialog.Orderly.exclusive ho).ready_idle hp hs
    refine .send _ start.time queue ?_ ?_ (by rfl) (by rfl) (by rfl) rfl ?_ ?_
    · exact fun t ht => Activity.accounts_of_kind (htasks t ht) ..
    · exact fun e he htoken => Report.accounts_of_ends (hqueue e he htoken) _
    · rw [JobQueue.toList_of_ofSelection hq]
      rfl
    · simp [Dialog.batchEffects, announced_cons]

theorem Conserving.after {op : Operation} (hc : desk.Conserving defaults jobs start)
    (ho : desk.Orderly opened) (hop : op.handled = []) (hfew : opened + op.openings < UInt64.size)
    (hfetch : ¬ desk.Fetches (.operate op)) : (desk.after op).Conserving defaults jobs start := by
  obtain ⟨record, calls, hrecord, hcalls, hc⟩ := hc
  obtain ⟨r, ht, hperform, heq⟩ := after_transition ho.consistent.coherent op
  rw [heq]
  refine ⟨record, _, hrecord, by rw [hcalls, List.append_assoc], ?_⟩
  have ho' : desk.dialog.Orderly opened desk.tasks (op.handled ++ desk.queue) := by
    rw [hop]
    exact ho
  refine ht.conserving ho' ?_ hfew ?_ desk.time
  · rw [hop]
    exact hc
  · rintro checked rfl hok
    exact hfetch ⟨checked, rfl, by rw [hperform, hok]⟩

theorem Conserving.handleNext (hc : desk.Conserving defaults jobs start)
    (ho : desk.Orderly opened) (hfew : opened < UInt64.size) :
    desk.handleNext.Conserving defaults jobs start := by
  obtain ⟨record, calls, hrecord, hcalls, hc⟩ := hc
  rcases handleNext_transition ho.consistent.coherent with
    ⟨-, heq⟩ | ⟨event, rest, r, hq, ht, heq⟩
  · rw [heq]
    exact ⟨record, calls, hrecord, hcalls, hc⟩
  · rw [Orderly, hq] at ho
    rw [hq] at hc
    rw [heq]
    refine ⟨record, _, hrecord, by rw [hcalls, List.append_assoc], ?_⟩
    exact ht.conserving ho hc hfew (by simp) desk.time

theorem Conserving.goOn (hc : desk.Conserving defaults jobs start) (ho : desk.Orderly opened)
    (index : Nat) : (desk.goOn remote.recording index).Conserving defaults jobs start := by
  obtain ⟨record, calls, hrecord, hcalls, hc⟩ := hc
  rcases goOn_resume remote.recording desk index with ⟨-, heq⟩ | ⟨task, time, hget, heq⟩
  · rw [heq]
    exact ⟨record, calls, hrecord, hcalls, hc⟩
  · have hworking := hc.working task (List.mem_of_getElem? hget)
    obtain ⟨hb, hsame⟩ := Activity.resume_accounts hworking hrecord hc.inTurn
    obtain ⟨record', hrecord', hc'⟩ := hc.absorb ho hget hb fun hk => (hsame hk).trans hrecord
    rw [heq]
    refine ⟨record', calls, hrecord', hcalls, ?_⟩
    simp only [Desk.absorb]
    split
    · exact hc'
    · exact hc'.dequeue fun e he => List.mem_append_left _ he

theorem Conserving.move {m : Move} (hc : desk.Conserving defaults jobs start)
    (ho : desk.Orderly opened) (hown : m.Own) (hfew : opened + m.openings < UInt64.size)
    (hfetch : ¬ desk.Fetches m) :
    (desk.move remote.recording m).Conserving defaults jobs start := by
  cases m with
  | operate op => exact hc.after ho hown.handled hfew hfetch
  | handleNext => exact hc.handleNext ho hfew
  | dismissNext => exact hown.elim
  | goOn index => exact hc.goOn ho index
  | settle =>
    refine (settle_induction (P := fun desk => desk.Orderly opened ∧
      desk.Conserving defaults jobs start) ?_ ?_ ⟨ho, hc⟩).2
    · rintro desk ⟨ho, hc⟩
      exact ⟨ho.handleNext hfew, hc.handleNext ho hfew⟩
    · rintro desk index ⟨ho, hc⟩
      exact ⟨ho.goOn index, hc.goOn ho index⟩
  | pass | stopListening => exact hc

theorem Conserving.moves {ms : List Move} (hc : desk.Conserving defaults jobs start)
    (ho : desk.Orderly opened) (hown : ∀ m ∈ ms, m.Own)
    (hfew : opened + openingsOf ms < UInt64.size) (hfetch : desk.Fetchless remote.recording ms) :
    (desk.moves remote.recording ms).Conserving defaults jobs start := by
  induction ms generalizing desk opened with
  | nil => exact hc
  | cons m ms ih =>
    obtain ⟨hm, hms⟩ := List.forall_mem_cons.mp hown
    obtain ⟨hfirst, hrest⟩ := hfetch
    rw [openingsOf_cons, ← Nat.add_assoc] at hfew
    exact ih (hc.move ho hm (by omega) hfirst) (ho.move hm (by omega)) hms hfew hrest

end Desk

/-! ## Fetches -/

/-- The jobs of a fetch are queued once and in order, after a record of attempts and calls to the
host. An attempt is for the first job that is not acknowledged and carries the options of the feed;
what a retry would send is what is not acknowledged; and the operator is told that all jobs were
queued when they were. -/
structure Dialog.QueuesOnce (defaults : DispatchDefaults) (jobs : List Job)
    (record : List Attempt) (calls : List HostCall) (d : Dialog) : Prop where
  inTurn : InTurn defaults jobs record
  carried : ∀ a ∈ record, a.1.paused = false ∧ a.1.category = defaults.category ∧
    a.1.priority = defaults.priority
  once : ∀ past attempt later, record = past ++ attempt :: later →
    attempt.1.url ∉ (acknowledged past).map AppendRequest.url
  halted : ∀ s, d.session = some s → ∀ failure, s.pendingRetry = some failure →
    ∃ sent, jobs = sent ++ failure.failed :: failure.remaining ∧
      acknowledged record = sent.map (Job.request defaults)
  completed : Announced calls → acknowledged record = jobs.map (Job.request defaults)

theorem InTurn.carried {defaults : DispatchDefaults} {jobs : List Job} {record : List Attempt}
    (h : InTurn defaults jobs record) : ∀ a ∈ record, a.1.paused = false ∧
      a.1.category = defaults.category ∧ a.1.priority = defaults.priority := by
  intro a ha
  obtain ⟨past, later, he⟩ := List.append_of_mem ha
  obtain ⟨sent, job, rest, -, -, hrequest⟩ := h past a later he
  rw [hrequest]
  exact ⟨rfl, rfl, rfl⟩

/-- If no two jobs have one address then no address is tried again after it was acknowledged. -/
theorem InTurn.once {defaults : DispatchDefaults} {jobs : List Job} {record : List Attempt}
    (h : InTurn defaults jobs record) (hnodup : (jobs.map Job.url).Nodup)
    (past : List Attempt) (attempt : Attempt) (later : List Attempt)
    (he : record = past ++ attempt :: later) :
    attempt.1.url ∉ (acknowledged past).map AppendRequest.url := by
  obtain ⟨sent, job, rest, hjobs, hack, hrequest⟩ := h past attempt later he
  rw [hrequest, hack, List.map_map]
  rw [hjobs, List.map_append, List.nodup_append] at hnodup
  intro hmem
  exact hnodup.2.2 _ hmem _ List.mem_cons_self rfl

theorem Dialog.Conserving.queuesOnce {defaults : DispatchDefaults} {jobs : List Job}
    {record : List Attempt} {calls : List HostCall} {d : Dialog} {tasks : List Running}
    {queue : List Event} (hc : d.Conserving defaults jobs record calls tasks queue)
    (hnodup : (jobs.map Job.url).Nodup) : d.QueuesOnce defaults jobs record calls where
  inTurn := inTurn_of_leftOver hc.inTurn
  carried := (inTurn_of_leftOver hc.inTurn).carried
  once := (inTurn_of_leftOver hc.inTurn).once hnodup
  halted s hs failure hr := by
    obtain ⟨-, hleft⟩ := hc.retained s hs failure hr
    exact acknowledged_of_leftOver hleft
  completed ha := by
    obtain ⟨sent, hsent, hack⟩ := acknowledged_of_leftOver (hc.completed ha).1
    rw [hack, hsent, List.append_nil]

namespace Desk

variable {σ : Type}

/-- A desk after a run from the beginning, with a record of the attempts at jobs. -/
def recorded (remote : Remote σ) (settings : DialogSettings) (wallClock : Int64) (s : σ)
    (ms : List Move) : Desk (σ × List Attempt) :=
  (create settings wallClock (s, [])).moves remote.recording ms

theorem recorded_append (remote : Remote σ) (settings : DialogSettings) (wallClock : Int64) (s : σ)
    (a b : List Move) : recorded remote settings wallClock s (a ++ b) =
      (recorded remote settings wallClock s a).moves remote.recording b :=
  moves_append ..

/-- Since some of the items of a session were checked and fetched, the jobs of these items, in the
order of the items, are queued once and with the options of a feed. -/
def QueuesChecked (shown : Option FeedSource) (checked : List String)
    (start desk : Desk (σ × List Attempt)) : Prop :=
  ∃ source session record calls, shown = some source ∧ start.dialog.session = some session ∧
    desk.remote.2 = start.remote.2 ++ record ∧ desk.hostCalls = start.hostCalls ++ calls ∧
    desk.dialog.QueuesOnce source.defaults
      ((JobQueue.selected session.loadedItems checked).map Job.ofItem) record calls

/-- Take a run of a desk by itself in which a fetch takes jobs, and go on without another such
fetch. Whatever the server answers, and however often the jobs are retried, the jobs of the fetch
are queued once and in order, with the options of the feed that the view was opened on. Tokens have
64 bits, so the run opens fewer sessions than it takes for a token to come again while an event of
its first session still waits. -/
theorem fetch_queues_once (remote : Remote σ) (settings : DialogSettings) (wallClock : Int64)
    (s : σ) (before after : List Move) (checked : List String)
    (hown : ∀ m ∈ before ++ .operate (.fetch checked) :: after, m.Own)
    (hfew : openingsOf (before ++ .operate (.fetch checked) :: after) < UInt64.size)
    (hfetch : ((recorded remote settings wallClock s before).perform (.fetch checked)).1 = .ok ())
    (hlast : (recorded remote settings wallClock s
      (before ++ [.operate (.fetch checked)])).Fetchless remote.recording after) :
    (recorded remote settings wallClock s
        (before ++ .operate (.fetch checked) :: after)).forget =
      (create settings wallClock s).moves remote (before ++ .operate (.fetch checked) :: after) ∧
    QueuesChecked (lastShown before) checked (recorded remote settings wallClock s before)
      (recorded remote settings wallClock s (before ++ .operate (.fetch checked) :: after)) := by
  refine ⟨forget_moves remote _ _, ?_⟩
  obtain ⟨hbefore, -, hafter⟩ : (∀ m ∈ before, m.Own) ∧ (Move.operate (.fetch checked)).Own ∧
      ∀ m ∈ after, m.Own := by
    rw [List.forall_mem_append, List.forall_mem_cons] at hown
    exact hown
  have hnone : (Move.operate (.fetch checked)).openings = 0 := rfl
  rw [openingsOf_append, openingsOf_cons, hnone, Nat.zero_add] at hfew
  have ho : (recorded remote settings wallClock s before).Orderly (0 + openingsOf before) :=
    (orderly_create settings wallClock (s, [])).moves hbefore (by omega)
  rw [Nat.zero_add] at ho
  have hserves : (recorded remote settings wallClock s before).dialog.Serves (lastShown before) :=
    serves_moves remote.recording (Dialog.coherent_create settings)
      (fun session h => by simp [create, Dialog.create] at h) before
  obtain ⟨session, hs, hp, hc⟩ := conserving_fetch ho hfetch
  obtain ⟨source, hshown, hdefaults⟩ := hserves session hs
  obtain ⟨⟨items, hi, hitems⟩, -⟩ := (ho.consistent.session_fits session hs).loaded (.inl hp)
  have hnodup := JobQueue.nodup_selected hitems checked
  have hloaded : session.loadedItems = items := by
    rw [Session.loadedItems, hi, Option.getD_some]
  have hfetched : ((recorded remote settings wallClock s before).after (.fetch checked)).Orderly
      (openingsOf before + (Operation.fetch checked).openings) := by
    refine ho.after rfl ?_
    change openingsOf before + 0 < UInt64.size
    omega
  have hstart : recorded remote settings wallClock s (before ++ [.operate (.fetch checked)]) =
      (recorded remote settings wallClock s before).after (.fetch checked) := recorded_append ..
  have hend : recorded remote settings wallClock s (before ++ .operate (.fetch checked) :: after) =
      ((recorded remote settings wallClock s before).after (.fetch checked)).moves remote.recording
        after := recorded_append ..
  rw [hstart] at hlast
  obtain ⟨record, calls, hrecord, hcalls, hconserving⟩ := hc.moves hfetched hafter hfew hlast
  rw [hdefaults, hloaded] at hconserving
  rw [hend]
  refine ⟨source, session, record, calls, hshown, hs, hrecord, hcalls, ?_⟩
  rw [hloaded]
  exact hconserving.queuesOnce hnodup

def loadedRun : List Move := [.operate (.openOn default), .settle]

/-- Of two jobs the second is refused, retried and acknowledged. -/
theorem retry_queues_once :
    (recorded (.wavering [{ url := "a" }, { url := "b" }]) ⟨25, 300, 0⟩ 0 true
        (loadedRun ++ .operate (.fetch ["a", "b"]) :: [.settle, .operate .retry, .settle])).forget =
      (create ⟨25, 300, 0⟩ 0 true).moves (.wavering [{ url := "a" }, { url := "b" }])
        (loadedRun ++ .operate (.fetch ["a", "b"]) :: [.settle, .operate .retry, .settle]) ∧
    QueuesChecked (lastShown loadedRun) ["a", "b"]
      (recorded (.wavering [{ url := "a" }, { url := "b" }]) ⟨25, 300, 0⟩ 0 true loadedRun)
      (recorded (.wavering [{ url := "a" }, { url := "b" }]) ⟨25, 300, 0⟩ 0 true
        (loadedRun ++ .operate (.fetch ["a", "b"]) ::
          [.settle, .operate .retry, .settle])) := by
  apply fetch_queues_once
  · simp [loadedRun, Move.Own]
  · decide
  · rfl
  · simp [Fetchless, Fetches]

end Desk

end FeedDesk
