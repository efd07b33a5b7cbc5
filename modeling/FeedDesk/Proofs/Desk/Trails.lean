import FeedDesk.Proofs.Desk.Kept

/-!
# Progress comes before the end

A batch reports its progress before its end, and events are handled in the order of the reports. So
no progress of a batch waits any more once its end is handled. Progress does not say which batch it
is of, and it is for this reason alone that none is taken for progress of a later batch.
-/
namespace FeedDesk

def Event.Advances (token : SessionToken) (e : Event) : Prop :=
  e.token = token ∧ ∃ done total, e.report = .progress done total

/-- The events that wait tell the session of a view of progress only while a batch is being sent,
and only ahead of the end of the batch. -/
structure Dialog.Trailed (d : Dialog) (queue : List Event) : Prop where
  quiet : ∀ s, d.session = some s → d.phase ≠ .dispatching → ∀ e ∈ queue, ¬ e.Advances s.token
  ahead : ∀ s, d.session = some s → queue.Pairwise fun e later =>
    e.concludes s.token .dispatch = true → ¬ later.Advances s.token

/-- Work other than a batch does not report progress. -/
theorem Activity.resume_silent {σ : Type} {remote : Remote σ} {now : Nat} {a : Activity}
    (h : a.kind ≠ .dispatch) (s : σ) (token : SessionToken) :
    ∀ e ∈ (a.resume remote now s).events, ¬ e.Advances token := by
  cases a with
  | unstarted task =>
    cases task with
    | load | timer => simp [resume, Task.start]
    | dispatch => exact absurd rfl h
  | loading _ outcome => cases outcome <;> simp [resume, loadEvent, Event.Advances]
  | waiting => simp [resume, Event.Advances]
  | appending => exact absurd rfl h

/-- Work under way reports its end last. -/
theorem Burst.Works.ahead {σ : Type} {burst : Burst σ} {token : SessionToken} {kind : TaskKind}
    (h : burst.Works token kind) (P : Event → Prop) (other : SessionToken) :
    burst.events.Pairwise fun e later => e.concludes other .dispatch = true → P later := by
  have early {events : List Event} (hq : Underway token events) :
      ∀ e ∈ events, e.concludes other .dispatch = true → False := by
    intro e he hc
    simp [Event.concludes, (hq e he).2] at hc
  cases h with
  | waits _ _ _ _ hq => exact List.pairwise_of_forall_mem_list fun e he _ _ hc => (early hq e he hc).elim
  | ends first last _ he hq =>
    rw [he, List.pairwise_append]
    refine ⟨List.pairwise_of_forall_mem_list fun e he _ _ hc => (early hq e he hc).elim, ?_, ?_⟩
    · exact List.pairwise_singleton _ _
    · exact fun e he _ _ hc => (early hq e he hc).elim

namespace Dialog.Trailed

variable {d : Dialog} {queue : List Event} {s s' : Session} {tasks : List Running}

theorem create (settings : DialogSettings) : (Dialog.create settings).Trailed [] where
  quiet _ h := by simp [Dialog.create] at h
  ahead _ h := by simp [Dialog.create] at h

theorem dequeue {more : List Event} (h : d.Trailed more) (hq : queue.Sublist more) :
    d.Trailed queue where
  quiet s hs hp e he := h.quiet s hs hp e (hq.subset he)
  ahead s hs := (h.ahead s hs).sublist hq

theorem within {phase : Phase} (h : d.Trailed queue) (hs : d.session = some s)
    (ht : s'.token = s.token)
    (hp : phase ≠ .dispatching → ∀ e ∈ queue, ¬ e.Advances s.token) :
    (d.within phase s').Trailed queue where
  quiet := by
    rintro _ ⟨⟩ hne
    rw [ht]
    exact hp hne
  ahead := by
    rintro _ ⟨⟩
    rw [ht]
    exact h.ahead s hs

theorem refresh (h : d.Trailed queue) (now : Int64) : (d.refresh now).dialog.Trailed queue := by
  unfold Dialog.refresh
  split
  · exact h
  next s hs => exact h.within hs (reproject_token _ s) (h.quiet s hs)

/-- Behind the end of a batch no progress waits. -/
theorem behind {report : Report} (h : d.Trailed (⟨s.token, report⟩ :: queue))
    (hs : d.session = some s) (he : report.ends? = some .dispatch) :
    ∀ e ∈ queue, ¬ e.Advances s.token := by
  have hahead := (List.pairwise_cons.mp (h.ahead s hs)).1
  exact fun e hmem => hahead e hmem (by simp [Event.concludes, he])

theorem left (d : Dialog) (queue : List Event) : d.left.Trailed queue where
  quiet _ h := by simp [Dialog.left] at h
  ahead _ h := by simp [Dialog.left] at h

theorem entered (hfresh : ∀ e ∈ queue, e.token ≠ d.lastToken.next) (source : FeedSource) :
    (d.entered source).Trailed queue where
  quiet := by
    rintro _ ⟨⟩ - e he ⟨htoken, -⟩
    exact hfresh e he htoken
  ahead := by
    rintro _ ⟨⟩
    exact List.pairwise_of_forall_mem_list fun _ _ later hl _ ⟨htoken, _⟩ => hfresh later hl htoken

/-- A task goes on. Its reports come behind those that wait, and nothing comes behind the end of
a batch. -/
theorem absorb {σ : Type} {remote : Remote σ} {now index : Nat} {task : Running} {state : σ}
    (h : d.Trailed queue) (hx : d.Exclusive tasks queue) (hget : tasks[index]? = some task) :
    d.Trailed (queue ++ (task.activity.resume remote now state).events) := by
  have hworks : (task.activity.resume remote now state).Works task.activity.token
      task.activity.kind := task.activity.resume_works state
  by_cases hk : task.activity.kind = .dispatch
  · -- The batch goes on, so no end of a batch waits in front of what it reports.
    obtain ⟨hphase, -, hnone⟩ := hx.batch_alone hget hk
    refine ⟨fun _ _ hp => absurd hphase hp, fun s hs => ?_⟩
    refine List.pairwise_append.mpr ⟨h.ahead s hs, hworks.ahead _ _, fun e he _ _ hc => ?_⟩
    simp only [Event.concludes, decide_eq_true_eq] at hc
    exact absurd hc.2 (hnone s hs e he hc.1)
  · have hsilent (token : SessionToken) :
        ∀ e ∈ (task.activity.resume remote now state).events, ¬ e.Advances token :=
      Activity.resume_silent hk state token
    constructor
    · intro s hs hp e he
      rcases List.mem_append.mp he with he | he
      · exact h.quiet s hs hp e he
      · exact hsilent s.token e he
    · intro s hs
      exact List.pairwise_append.mpr ⟨h.ahead s hs, hworks.ahead _ _,
        fun _ _ later hl _ => hsilent s.token later hl⟩

end Dialog.Trailed

/-- Every step leaves progress ahead of the end of its batch. -/
theorem Transition.trailed {now : Int64} {d : Dialog} {queue : List Event} {op : Operation}
    {r : Reply} (h : Transition now d op r) (ht : d.Trailed (op.handled ++ queue))
    (hfresh : 0 < op.openings → ∀ e ∈ queue, e.token ≠ d.lastToken.next) :
    r.turn.dialog.Trailed queue := by
  have hd : d.Trailed queue := ht.dequeue (List.sublist_append_right _ _)
  cases h with
  | refused | unopened | unchecked | unfailed | unheeded | progressed => exact hd
  | opened source | reopened source => exact .entered (hfresh Nat.one_pos) source
  | cancelled | loadFailed | completed => exact .left d queue
  | filtered _ s _ hs | renamed _ s _ hs => exact (hd.within hs (by rfl) (hd.quiet s hs)).refresh now
  | fetched _ _ s _ hs | retried _ s _ hs | timeElapsed s _ hs =>
    exact hd.within hs (by rfl) (absurd rfl)
  | loaded _ s hp hs => exact hd.within hs rfl fun _ => hd.quiet s hs (by simp [hp])
  | halted _ s _ hs | brokenOff _ s _ hs => exact hd.within hs (by rfl) fun _ => ht.behind hs rfl

theorem kept_trailed : Kept (fun _ _ _ _ => True) fun d _ _ queue => d.Trailed queue where
  step ht _ h hfresh _ _ := ht.trailed h hfresh
  absorb _ _ _ hx h hget := h.absorb hx hget
  dequeue h hq := h.dequeue hq

namespace Desk

variable {σ : Type} {remote : Remote σ} {desk : Desk σ}

def Trailed (desk : Desk σ) : Prop := desk.Has fun d _ _ queue => d.Trailed queue

theorem trailed_create (settings : DialogSettings) (wallClock : Int64) (s : σ) :
    (create settings wallClock s).Trailed :=
  ⟨exclusive_create settings wallClock s, .create settings⟩

theorem Trailed.moves {ms : List Move} (h : desk.Trailed) (hown : ∀ m ∈ ms, m.Own)
    (hfresh : desk.Fresh remote ms) : (desk.moves remote ms).Trailed := by
  induction ms generalizing desk with
  | nil => exact h
  | cons m ms ih =>
    obtain ⟨hm, hms⟩ := List.forall_mem_cons.mp hown
    exact ih (Has.move h kept_trailed hm hfresh.1 fun _ _ => trivial) hms hfresh.2

end Desk

end FeedDesk
