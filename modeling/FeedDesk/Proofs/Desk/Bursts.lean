import FeedDesk.Dialog.Desk

/-!
# What a task does before it waits again

A task reports nothing that ends its work until it ends, and then it reports exactly one such
thing. Everything it reports and what is left of it carries the token of its session.
-/
namespace FeedDesk

def Task.kind : Task → TaskKind
  | .load .. => .load
  | .timer .. => .timer
  | .dispatch .. => .dispatch

def Task.token : Task → SessionToken
  | .load token _ | .timer token _ _ | .dispatch token _ _ _ => token

def Activity.kind : Activity → TaskKind
  | .unstarted task => task.kind
  | .loading .. => .load
  | .waiting .. => .timer
  | .appending .. => .dispatch

def Activity.token : Activity → SessionToken
  | .unstarted task => task.token
  | .loading token _ | .waiting token _ => token
  | .appending w _ _ _ _ => w.token

def Report.ends? : Report → Option TaskKind
  | .loaded _ => some .load
  | .progress .. => none
  | .finished .. => some .dispatch
  | .timeElapsed _ => some .timer
  | .panicked kind _ => some kind

/-- Whether some events are for a session and leave its work under way. -/
def Underway (token : SessionToken) (events : List Event) : Prop :=
  ∀ e ∈ events, e.token = token ∧ e.report.ends? = none

/-- What a task of a session does before it waits again or ends. -/
inductive Burst.Works {σ : Type} (token : SessionToken) (kind : TaskKind) (burst : Burst σ) : Prop
  | waits (task : Running) (hn : burst.next = some task) (ht : task.activity.token = token)
      (hk : task.activity.kind = kind) (hq : Underway token burst.events)
  | ends (early : List Event) (last : Event) (hn : burst.next = none)
      (he : burst.events = early ++ [last]) (hq : Underway token early)
      (ht : last.token = token) (hk : last.report.ends? = some kind)

section
variable {σ : Type} {remote : Remote σ} {now : Nat}

namespace BatchWork

def send (remote : Remote σ) (now : Nat) (w : BatchWork) (unheard : List BatchProgress)
    (done : List Job) (job : Job) (rest : List Job) (s : σ) : Burst σ :=
  let request := job.request w.defaults
  let (planned, s) := remote.append request s
  if planned.delay = 0 then
    let burst := w.goOn remote now unheard done job planned.outcome rest s
    { burst with calls := .appendUrl request :: burst.calls }
  else
    ⟨[.appendUrl request], w.progressEvents unheard,
      some ⟨now + planned.delay, .appending w done job planned.outcome rest⟩, s⟩

variable {w : BatchWork} {unheard : List BatchProgress} {done : List Job} {job : Job}
  {rest : List Job} {s : σ}

theorem goOn_breaks (text : String) :
    w.goOn remote now unheard done job (.breaks text) rest s =
      ⟨[], [w.event (.panicked .dispatch text)], none, s⟩ := by
  cases rest <;> rfl

theorem goOn_refused {answer : Answer Bool} {error : RemoteError}
    (h : refusal? answer = some error) :
    w.goOn remote now unheard done job (.answers answer) rest s =
      ⟨[], w.progressEvents unheard
        ++ [w.event (.finished w.batch (.error ⟨job, error, rest, done.length⟩))], none, s⟩ := by
  cases rest <;> simp only [goOn, h]

theorem goOn_last {answer : Answer Bool} (h : refusal? answer = none) :
    w.goOn remote now unheard done job (.answers answer) [] s =
      ⟨[], w.progressEvents (unheard ++ [⟨(done ++ [job]).length, w.total⟩])
        ++ [w.event (.finished w.batch (.ok (done ++ [job])))], none, s⟩ := by
  simp only [goOn, h]

theorem goOn_more {answer : Answer Bool} (h : refusal? answer = none) (next : Job) :
    w.goOn remote now unheard done job (.answers answer) (next :: rest) s =
      w.send remote now (unheard ++ [⟨(done ++ [job]).length, w.total⟩]) (done ++ [job]) next rest
        s := by
  simp only [goOn, h]
  rfl

theorem underway_progress (w : BatchWork) (unheard : List BatchProgress) :
    Underway w.token (w.progressEvents unheard) := by
  intro e he
  obtain ⟨p, -, rfl⟩ := List.mem_map.mp he
  exact ⟨rfl, rfl⟩

theorem send_works
    (h : ∀ outcome s, (w.goOn remote now unheard done job outcome rest s).Works w.token .dispatch) :
    (w.send remote now unheard done job rest s).Works w.token .dispatch := by
  unfold send
  dsimp only
  split
  · cases h (remote.append (job.request w.defaults) s).1.outcome
      (remote.append (job.request w.defaults) s).2 with
    | waits task hn ht hk hq => exact .waits task hn ht hk hq
    | ends early last hn he hq ht hk => exact .ends early last hn he hq ht hk
  · exact .waits _ rfl rfl rfl (w.underway_progress unheard)

/-- What holds of a batch that stops at a call, or has none left to make, and is kept by making the
next call, holds however a batch goes on. -/
theorem goOn_induction (w : BatchWork)
    {P : List BatchProgress → List Job → Job → CallOutcome Bool → List Job → σ → Burst σ → Prop}
    (breaks : ∀ unheard done job text rest s, P unheard done job (.breaks text) rest s
      ⟨[], [w.event (.panicked .dispatch text)], none, s⟩)
    (refused : ∀ unheard done job answer error rest s, refusal? answer = some error →
      P unheard done job (.answers answer) rest s ⟨[], w.progressEvents unheard
        ++ [w.event (.finished w.batch (.error ⟨job, error, rest, done.length⟩))], none, s⟩)
    (last : ∀ unheard done job answer s, refusal? answer = none →
      P unheard done job (.answers answer) [] s
        ⟨[], w.progressEvents (unheard ++ [⟨(done ++ [job]).length, w.total⟩])
          ++ [w.event (.finished w.batch (.ok (done ++ [job])))], none, s⟩)
    (more : ∀ unheard done job answer next rest s, refusal? answer = none →
      (∀ unheard done outcome s, P unheard done next outcome rest s
        (w.goOn remote now unheard done next outcome rest s)) →
      P unheard done job (.answers answer) (next :: rest) s
        (w.send remote now (unheard ++ [⟨(done ++ [job]).length, w.total⟩]) (done ++ [job]) next
          rest s))
    (unheard : List BatchProgress) (done : List Job) (job : Job) (outcome : CallOutcome Bool)
    (rest : List Job) (s : σ) :
    P unheard done job outcome rest s (w.goOn remote now unheard done job outcome rest s) := by
  induction rest generalizing unheard done job outcome s with
  | nil =>
    cases outcome with
    | breaks text =>
      rw [goOn_breaks]
      exact breaks ..
    | answers answer =>
      cases h : refusal? answer with
      | some error =>
        rw [goOn_refused h]
        exact refused _ _ _ _ _ _ _ h
      | none =>
        rw [goOn_last h]
        exact last _ _ _ _ _ h
  | cons next rest ih =>
    cases outcome with
    | breaks text =>
      rw [goOn_breaks]
      exact breaks ..
    | answers answer =>
      cases h : refusal? answer with
      | some error =>
        rw [goOn_refused h]
        exact refused _ _ _ _ _ _ _ h
      | none =>
        rw [goOn_more h]
        exact more _ _ _ _ _ _ _ h fun unheard done outcome s => ih unheard done next outcome s

theorem goOn_works (w : BatchWork) (unheard : List BatchProgress) (done : List Job) (job : Job)
    (outcome : CallOutcome Bool) (rest : List Job) (s : σ) :
    (w.goOn remote now unheard done job outcome rest s).Works w.token .dispatch := by
  refine w.goOn_induction (P := fun _ _ _ _ _ _ burst => burst.Works w.token .dispatch)
    ?breaks ?refused ?last ?more unheard done job outcome rest s
  case breaks =>
    intros
    exact .ends [] _ rfl rfl (by simp [Underway]) rfl rfl
  case refused | last =>
    intros
    exact .ends _ _ rfl rfl (w.underway_progress _) rfl rfl
  case more =>
    intro _ _ _ _ _ _ _ _ ih
    exact send_works fun outcome s => ih _ _ outcome s

end BatchWork

theorem start_dispatch (token : SessionToken) (batch : UInt64) (defaults : DispatchDefaults)
    (queue : JobQueue) (s : σ) :
    (Task.dispatch token batch defaults queue).start remote now s =
      BatchWork.send remote now ⟨token, batch, defaults, queue.size⟩ [] [] queue.head queue.rest
        s :=
  rfl

/-- A task that goes on waits again or ends with one report of its end. -/
theorem Activity.resume_works (a : Activity) (s : σ) :
    (a.resume remote now s).Works a.token a.kind := by
  cases a with
  | unstarted task =>
    cases task with
    | load token call => exact .waits _ rfl rfl rfl (by simp [Underway, resume, Task.start])
    | timer token batch delay =>
      exact .waits _ rfl rfl rfl (by simp [Underway, resume, Task.start])
    | dispatch token batch defaults queue =>
      rw [resume, start_dispatch]
      let w : BatchWork := ⟨token, batch, defaults, queue.size⟩
      exact BatchWork.send_works (w := w) fun outcome s => w.goOn_works [] [] _ outcome _ s
  | loading token outcome =>
    cases outcome with
    | answers result => exact .ends [] _ rfl rfl (by simp [Underway]) rfl rfl
    | breaks text => exact .ends [] _ rfl rfl (by simp [Underway]) rfl rfl
  | waiting token batch => exact .ends [] _ rfl rfl (by simp [Underway]) rfl rfl
  | appending w done job outcome rest => exact BatchWork.goOn_works w [] done job outcome rest s

theorem Burst.Works.event_token {burst : Burst σ} {token : SessionToken} {kind : TaskKind}
    (h : burst.Works token kind) : ∀ e ∈ burst.events, e.token = token := by
  intro e he
  cases h with
  | waits _ _ _ _ hq => exact (hq e he).1
  | ends early last _ hevents hq ht =>
    rw [hevents, List.mem_append, List.mem_singleton] at he
    rcases he with he | rfl
    · exact (hq e he).1
    · exact ht

theorem Burst.Works.next_token {burst : Burst σ} {token : SessionToken} {kind : TaskKind}
    (h : burst.Works token kind) : ∀ t ∈ burst.next.toList, t.activity.token = token := by
  intro t ht
  cases h with
  | waits task hn htoken =>
    rw [hn, Option.toList_some, List.mem_singleton] at ht
    rw [ht, htoken]
  | ends _ _ hn => simp [hn] at ht

end

/-! ## The batch of a task -/

def Task.batch? : Task → Option UInt64
  | .load .. => none
  | .timer _ batch _ | .dispatch _ batch _ _ => some batch

def Activity.batch? : Activity → Option UInt64
  | .unstarted task => task.batch?
  | .loading .. => none
  | .waiting _ batch => some batch
  | .appending w _ _ _ _ => some w.batch

def Report.batch? : Report → Option UInt64
  | .finished batch _ | .timeElapsed batch => some batch
  | .loaded _ | .progress .. | .panicked .. => none

/-- A task stays with its batch, and its reports name no other. -/
structure Burst.KeepsTo {σ : Type} (batch : Option UInt64) (burst : Burst σ) : Prop where
  next : ∀ t ∈ burst.next.toList, t.activity.batch? = batch
  events : ∀ e ∈ burst.events, ∀ named, e.report.batch? = some named → batch = some named

section
variable {σ : Type} {remote : Remote σ} {now : Nat}

namespace BatchWork

variable {w : BatchWork} {unheard : List BatchProgress} {done : List Job} {job : Job}
  {rest : List Job} {s : σ}

theorem batch_progressEvents (w : BatchWork) (unheard : List BatchProgress) :
    ∀ e ∈ w.progressEvents unheard, e.report.batch? = none := by
  intro e he
  obtain ⟨p, -, rfl⟩ := List.mem_map.mp he
  rfl

/-- The reports of a batch before its end name no batch, and the end names its own. -/
theorem keepsTo_end (w : BatchWork) (unheard : List BatchProgress) (result : BatchResult) (s : σ) :
    Burst.KeepsTo (some w.batch)
      ⟨[], w.progressEvents unheard ++ [w.event (.finished w.batch result)], none, s⟩ where
  next := by simp
  events e he named hnamed := by
    rcases List.mem_append.mp he with he | he
    · rw [w.batch_progressEvents unheard e he] at hnamed
      cases hnamed
    · rw [List.mem_singleton.mp he] at hnamed
      exact hnamed

theorem send_keepsTo
    (h : ∀ outcome s,
      (w.goOn remote now unheard done job outcome rest s).KeepsTo (some w.batch)) :
    (w.send remote now unheard done job rest s).KeepsTo (some w.batch) := by
  unfold send
  dsimp only
  split
  · have hgo := h (remote.append (job.request w.defaults) s).1.outcome
      (remote.append (job.request w.defaults) s).2
    exact ⟨hgo.next, hgo.events⟩
  · refine ⟨by simp [Activity.batch?], fun e he named hnamed => ?_⟩
    rw [w.batch_progressEvents unheard e he] at hnamed
    cases hnamed

theorem goOn_keepsTo (w : BatchWork) (unheard : List BatchProgress) (done : List Job) (job : Job)
    (outcome : CallOutcome Bool) (rest : List Job) (s : σ) :
    (w.goOn remote now unheard done job outcome rest s).KeepsTo (some w.batch) := by
  refine w.goOn_induction (P := fun _ _ _ _ _ _ burst => burst.KeepsTo (some w.batch))
    ?breaks ?refused ?last ?more unheard done job outcome rest s
  case breaks =>
    intros
    exact ⟨by simp, by simp [event, Report.batch?]⟩
  case refused =>
    intro unheard _ _ _ _ _ s _
    exact w.keepsTo_end unheard _ s
  case last =>
    intro unheard _ _ _ s _
    exact w.keepsTo_end _ _ s
  case more =>
    intro _ _ _ _ _ _ _ _ ih
    exact send_keepsTo fun outcome s => ih _ _ outcome s

end BatchWork

theorem Activity.resume_keepsTo (a : Activity) (s : σ) :
    (a.resume remote now s).KeepsTo a.batch? := by
  cases a with
  | unstarted task =>
    cases task with
    | load | timer =>
      exact ⟨by simp [resume, Task.start, batch?, Task.batch?], by simp [resume, Task.start]⟩
    | dispatch token batch defaults queue =>
      rw [resume, start_dispatch]
      let w : BatchWork := ⟨token, batch, defaults, queue.size⟩
      exact BatchWork.send_keepsTo (w := w) fun outcome s => w.goOn_keepsTo [] [] _ outcome _ s
  | loading token outcome =>
    refine ⟨by simp [resume], ?_⟩
    cases outcome <;> simp [resume, loadEvent, Report.batch?]
  | waiting token batch => exact ⟨by simp [resume], by simp [resume, Report.batch?, batch?]⟩
  | appending w done job outcome rest => exact w.goOn_keepsTo [] done job outcome rest s

end

/-! ## Counting what is pending -/

def Running.does (token : SessionToken) (kind : TaskKind) (t : Running) : Bool :=
  t.activity.token = token ∧ t.activity.kind = kind

/-- Whether an event tells a session that work of a kind is over. -/
def Event.concludes (token : SessionToken) (kind : TaskKind) (e : Event) : Bool :=
  e.token = token ∧ e.report.ends? = some kind

/-- The number of tasks of a kind for a session of which it has not been heard that they are
over. -/
def pending (token : SessionToken) (kind : TaskKind) (tasks : List Running)
    (queue : List Event) : Nat :=
  tasks.countP (·.does token kind) + queue.countP (·.concludes token kind)

theorem Underway.countP_concludes {token : SessionToken} {events : List Event}
    (h : Underway token events) (other : SessionToken) (kind : TaskKind) :
    events.countP (·.concludes other kind) = 0 := by
  rw [List.countP_eq_zero]
  intro e he
  simp [Event.concludes, (h e he).2]

/-- A task that goes on stays pending until its end is heard. -/
theorem Burst.Works.pending {σ : Type} {burst : Burst σ} {token : SessionToken} {kind : TaskKind}
    (h : burst.Works token kind) (t : SessionToken) (k : TaskKind) :
    FeedDesk.pending t k burst.next.toList burst.events =
      if token = t ∧ kind = k then 1 else 0 := by
  unfold FeedDesk.pending
  cases h with
  | waits task hn ht hk hq =>
    rw [hn, hq.countP_concludes, Option.toList_some, List.countP_singleton]
    simp [Running.does, ht, hk]
  | ends early last hn he hq ht hk =>
    rw [hn, he, List.countP_append, hq.countP_concludes, List.countP_singleton]
    simp [Event.concludes, ht, hk]

end FeedDesk
