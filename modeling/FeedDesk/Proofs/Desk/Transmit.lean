import FeedDesk.Proofs.Desk.Timers
import FeedDesk.Proofs.Dialog.Sign

/-!
# When the transmit sign is shown

The sign is shown when the timer of a batch expires while the batch is being sent, and it is taken
away when the batch ends. A batch has one timer, so of the timers that wait for the batch and the
times that the sign was shown for it there is one at most. Timers of earlier batches, which may
expire at any time, do nothing.
-/
namespace FeedDesk

def Dialog.signed (d : Dialog) : Bool :=
  match d.session with
  | some s => s.transmitVisible
  | none => false

/-- A view that shows the sign properly, after some calls to the host. Of the timers that wait for
the last batch and the times that the sign was shown for it, there is one at most. -/
structure Dialog.Signing (calls : List HostCall) (d : Dialog) (tasks : List Running)
    (queue : List Event) : Prop where
  signed : Signed calls d.signed
  single : ∀ s, d.session = some s →
    timersFor s.token s.batch tasks queue + shownSinceBatch calls ≤ 1

/-- Whether no timer waits for the batch that a step begins, if it begins one. -/
def BeginsFresh (d : Dialog) (tasks : List Running) (queue : List Event) (r : Reply) : Prop :=
  ∀ s jobs, d.session = some s →
    .start (.dispatch s.token (s.batch + 1) s.defaults jobs) ∈ r.turn.effects →
    timersFor s.token (s.batch + 1) tasks queue = 0

theorem Dialog.signed_of_session {d : Dialog} {s : Session} (hs : d.session = some s) :
    d.signed = s.transmitVisible := by
  rw [signed, hs]

theorem plain_refresh (d : Dialog) (now : Int64) :
    ∀ call ∈ hostCallsOf (d.refresh now).effects, call.isPlain = true := by
  unfold Dialog.refresh
  split
  · simp [Turn.idle]
  · dsimp only
    split <;> simp [HostCall.isPlain]

/-- Closing a view takes the sign away. -/
theorem Signed.close {calls : List HostCall} {s : Session} (h : Signed calls s.transmitVisible) :
    Signed (calls ++ hostCallsOf s.closing) false ∧
      shownSinceBatch (calls ++ hostCallsOf s.closing) = shownSinceBatch calls := by
  have hplain : ∀ call ∈ [HostCall.loading false, .clearTable, .resumeRefresh],
      call.isPlain = true := by
    simp [HostCall.isPlain]
  have hclosing : hostCallsOf s.closing =
      hostCallsOf s.signOff ++ [.loading false, .clearTable, .resumeRefresh] := by
    simp [Session.closing]
  obtain ⟨hsigned, hshown⟩ := h.hide
  rw [hclosing, ← List.append_assoc]
  exact ⟨hsigned.plain hplain, (shownSinceBatch_of_plain hplain _).trans hshown⟩

namespace Dialog.Signing

variable {calls new : List HostCall} {d : Dialog} {tasks : List Running} {queue : List Event}
  {s s' : Session}

theorem create (settings : DialogSettings) : (Dialog.create settings).Signing [] [] [] :=
  ⟨.nil, fun _ h => by simp [Dialog.create] at h⟩

theorem dequeue {more : List Event} (hd : d.Signing calls tasks more)
    (hq : queue.Sublist more) : d.Signing calls tasks queue := by
  refine ⟨hd.signed, fun s hs => ?_⟩
  have hle : timersFor s.token s.batch tasks queue ≤ timersFor s.token s.batch tasks more :=
    timersFor_le_of_sublist hq
  have hsingle := hd.single s hs
  omega

theorem plain (hd : d.Signing calls tasks queue) (hnew : ∀ call ∈ new, call.isPlain = true) :
    d.Signing (calls ++ new) tasks queue := by
  refine ⟨hd.signed.plain hnew, fun s hs => ?_⟩
  rw [shownSinceBatch_of_plain hnew]
  exact hd.single s hs

theorem within {phase : Phase} (hd : d.Signing calls tasks queue) (hs : d.session = some s)
    (ht : s'.token = s.token) (hb : s'.batch = s.batch)
    (hv : s'.transmitVisible = s.transmitVisible) :
    (d.within phase s').Signing calls tasks queue := by
  refine ⟨?_, ?_⟩
  · have hsigned := hd.signed
    rw [signed_of_session hs, ← hv] at hsigned
    exact hsigned
  · rintro _ ⟨⟩
    rw [ht, hb]
    exact hd.single s hs

theorem refreshed {now : Int64} (hd : d.Signing calls tasks queue) (hs : d.session = some s)
    (ht : s'.token = s.token) (hb : s'.batch = s.batch)
    (hv : s'.transmitVisible = s.transmitVisible) (hfits : s'.Fits .ready) (time : Nat) :
    ((d.within d.phase s').refresh now).dialog.Signing
      (calls ++ hostCallsOf ((d.within d.phase s').refresh now).effects)
      (((d.within d.phase s').refresh now).effects.foldl (tasksAfter time) tasks) queue := by
  obtain ⟨⟨items, hi, -⟩, -⟩ := hfits.loaded (.inl rfl)
  rw [refresh_of_items rfl hi]
  have hwithin : (d.within d.phase (s'.shown items (d.clock now))).Signing calls tasks queue :=
    hd.within hs ht hb hv
  exact hwithin.plain (by simp [tableEffects, HostCall.isPlain])

theorem unsign {phase : Phase} (hd : d.Signing calls tasks queue) (hs : d.session = some s)
    (ht : s'.token = s.token) (hb : s'.batch = s.batch) (hv : s'.transmitVisible = false) :
    (d.within phase s').Signing (calls ++ hostCallsOf s.signOff) tasks queue := by
  have hsigned := hd.signed
  rw [signed_of_session hs] at hsigned
  obtain ⟨hhidden, hshown⟩ := hsigned.hide
  refine ⟨?_, ?_⟩
  · rw [← hv] at hhidden
    exact hhidden
  · rintro _ ⟨⟩
    rw [ht, hb, hshown]
    exact hd.single s hs

theorem left (hsigned : Signed calls false) (d : Dialog) (queue : List Event) :
    d.left.Signing calls [] queue :=
  ⟨hsigned, fun _ h => by simp [Dialog.left] at h⟩

theorem entered (hsigned : Signed calls false) (hfresh : ∀ e ∈ queue, e.token ≠ d.lastToken.next)
    (time : Nat) (source : FeedSource) :
    (d.entered source).Signing (calls ++ hostCallsOf (source.opening d.lastToken.next))
      ((source.opening d.lastToken.next).foldl (tasksAfter time) []) queue := by
  have hplain : ∀ call ∈ hostCallsOf (source.opening d.lastToken.next), call.isPlain = true := by
    simp [FeedSource.opening, HostCall.isPlain]
  refine ⟨hsigned.plain hplain, ?_⟩
  rintro _ ⟨⟩
  have hnone : timersFor d.lastToken.next 0
      ((source.opening d.lastToken.next).foldl (tasksAfter time) []) queue = 0 := by
    rw [foldl_tasksAfter_opening, timersFor_eq_zero_iff]
    constructor
    · simp [Running.times, Activity.kind, Task.kind]
    · intro e he
      simp [Event.elapses, hfresh e he]
  have honce := hsigned.once calls (List.prefix_refl calls)
  rw [shownSinceBatch_of_plain hplain]
  change timersFor d.lastToken.next 0 _ queue + _ ≤ 1
  omega

/-- A batch begins with one timer, if none waits with its number. -/
theorem send (hd : d.Signing calls tasks queue) (hs : d.session = some s)
    (ht : s'.token = s.token) (hb : s'.batch = s.batch + 1)
    (hv : s'.transmitVisible = s.transmitVisible) (hhidden : s.transmitVisible = false)
    (hnone : timersFor s.token (s.batch + 1) tasks queue = 0) (time : Nat) (jobs : JobQueue) :
    (d.within .dispatching s').Signing (calls ++ hostCallsOf (d.batchEffects s jobs))
      ((d.batchEffects s jobs).foldl (tasksAfter time) tasks) queue := by
  have hsigned := hd.signed
  rw [signed_of_session hs, hhidden] at hsigned
  refine ⟨?_, ?_⟩
  · change Signed (calls ++ [.controls false]) s'.transmitVisible
    rw [hv, hhidden]
    exact hsigned.begin
  · rintro _ ⟨⟩
    have hshown : shownSinceBatch (calls ++ hostCallsOf (d.batchEffects s jobs)) = 0 :=
      shownSinceBatch_concat calls (.controls false)
    rw [hshown, ht, hb, foldl_tasksAfter_batch, timersFor_append_tasks, hnone]
    simp [Running.times, Activity.kind, Task.kind, Activity.token, Task.token, Activity.batch?,
      Task.batch?]

/-- The timer of the batch that is being sent expires, for the first time. -/
theorem elapse (hd : d.Signing calls tasks (⟨s.token, .timeElapsed s.batch⟩ :: queue))
    (hs : d.session = some s) :
    timersFor s.token s.batch tasks queue = 0 ∧
      (d.within .dispatching { s with transmitVisible := true }).Signing
        (calls ++ [.transmit true]) tasks queue := by
  have hsingle := hd.single s hs
  have helapses : Event.elapses s.token s.batch ⟨s.token, .timeElapsed s.batch⟩ = true := by
    simp [Event.elapses, Report.ends?, Report.batch?]
  -- The timer that has expired is the one that there may be, so the sign was not shown before.
  rw [timersFor_cons_event, if_pos helapses] at hsingle
  have hnone : timersFor s.token s.batch tasks queue = 0 := by omega
  have hunshown : shownSinceBatch calls = 0 := by omega
  have hsigned := hd.signed
  have hhidden : d.signed = false := by
    by_contra hvisible
    have hcounted := hsigned.counted (by simpa using hvisible)
    omega
  rw [hhidden] at hsigned
  refine ⟨hnone, hsigned.raise hunshown, ?_⟩
  rintro _ ⟨⟩
  rw [shownSinceBatch_concat, hunshown]
  exact Nat.le_of_eq (congrArg (· + 1) hnone)

theorem absorb {σ : Type} {burst : Burst σ} {index : Nat} {task : Running}
    (hd : d.Signing calls tasks queue) (hget : tasks[index]? = some task)
    (hw : burst.Works task.activity.token task.activity.kind)
    (hk : burst.KeepsTo task.activity.batch?) :
    d.Signing calls (tasks.eraseIdx index ++ burst.next.toList) (queue ++ burst.events) := by
  refine ⟨hd.signed, fun s hs => ?_⟩
  have hle : timersFor s.token s.batch (tasks.eraseIdx index ++ burst.next.toList)
      (queue ++ burst.events) ≤ timersFor s.token s.batch tasks queue := timersFor_absorb hget hw hk
  have hsingle := hd.single s hs
  omega

end Dialog.Signing

/-- Every step shows the sign properly, if it opens no session that an event already waits for and
begins no batch that a timer already waits for. -/
theorem Transition.signing {now : Int64} {d : Dialog} {calls : List HostCall}
    {tasks : List Running} {queue : List Event} {op : Operation} {r : Reply}
    (h : Transition now d op r) (hc : d.Consistent)
    (hd : d.Signing calls tasks (op.handled ++ queue)) (habandoned : d.phase = .closed → tasks = [])
    (hfresh : 0 < op.openings → ∀ e ∈ queue, e.token ≠ d.lastToken.next)
    (hnew : BeginsFresh d tasks queue r) (time : Nat) :
    r.turn.dialog.Signing (calls ++ hostCallsOf r.turn.effects)
      (r.turn.effects.foldl (tasksAfter time) tasks) queue := by
  have hq : d.Signing calls tasks queue := hd.dequeue (List.sublist_append_right _ _)
  have fits {s : Session} (hs : d.session = some s) (hp : d.phase = .ready) : s.Fits .ready :=
    hp ▸ hc.session_fits s hs
  have hidden {s : Session} (hs : d.session = some s) (hp : d.phase = .ready) :
      s.transmitVisible = false := by
    by_contra hv
    simpa using (fits hs hp).sign (by simpa using hv)
  have signed {s : Session} (hs : d.session = some s) : Signed calls s.transmitVisible :=
    Dialog.signed_of_session hs ▸ hd.signed
  cases h with
  | refused | unopened | unfailed | unheeded => exact hq.plain (by simp [Turn.idle])
  | unchecked | progressed => exact hq.plain (by simp [HostCall.isPlain])
  | opened source hp =>
    have hsigned := hq.signed
    rw [Dialog.signed, hc.session_none_iff.mpr hp] at hsigned
    rw [habandoned hp]
    exact .entered hsigned (hfresh Nat.one_pos) time source
  | reopened source s hp hs =>
    simp only [List.foldl_append, foldl_tasksAfter_closing, hostCallsOf_append, ← List.append_assoc]
    exact .entered (signed hs).close.1 (hfresh Nat.one_pos) time source
  | cancelled s hp hs =>
    simp only [foldl_tasksAfter_closing]
    exact .left (signed hs).close.1 d queue
  | loadFailed report e s hp hs =>
    simp only [List.foldl_append, foldl_tasksAfter_closing, hostCallsOf_append, ← List.append_assoc]
    exact .left ((signed hs).close.1.plain (by simp [HostCall.isPlain])) d queue
  | completed jobs s hp hs =>
    simp only [List.foldl_append, foldl_tasksAfter_closing, foldl_tasksAfter_signOff,
      hostCallsOf_append, ← List.append_assoc]
    have hclosed : Signed (calls ++ hostCallsOf s.signOff ++ hostCallsOf s.unsigned.closing) false :=
      ((signed hs).hide.1 : Signed _ s.unsigned.transmitVisible).close.1
    exact .left (hclosed.plain (by simp [HostCall.isPlain])) d queue
  | filtered filter s hp hs =>
    exact hq.refreshed hs (by rfl) (by rfl) (by rfl) ((fits hs hp).filtered filter) time
  | renamed naming s hp hs =>
    exact hq.refreshed hs (by rfl) (by rfl) (by rfl) ((fits hs hp).renamed naming) time
  | fetched _ jobs s hp hs =>
    exact hq.send hs (by rfl) (by rfl) (by rfl) (hidden hs hp)
      (hnew s jobs hs (by simp [Dialog.batchEffects])) time jobs
  | retried failure s hp hs =>
    exact hq.send hs (by rfl) (by rfl) (by rfl) (hidden hs hp)
      (hnew s failure.retryQueue hs (by simp [Dialog.batchEffects])) time failure.retryQueue
  | loaded items s hp hs =>
    have hwithin : (d.within .ready (s.shown items (d.clock now))).Signing calls tasks queue :=
      hq.within hs rfl rfl rfl
    exact hwithin.plain (by simp [Dialog.tableEffects, HostCall.isPlain])
  | timeElapsed s hp hs => exact (hd.elapse hs).2
  | halted failure s hp hs =>
    simp only [List.foldl_append, foldl_tasksAfter_signOff, hostCallsOf_append,
      ← List.append_assoc]
    have hunsigned : (d.within .ready { s.unsigned with pendingRetry := some failure }).Signing
        (calls ++ hostCallsOf s.signOff) tasks queue := hq.unsign hs rfl rfl rfl
    exact hunsigned.plain (by simp [HostCall.isPlain])
  | brokenOff text s hp hs =>
    simp only [List.foldl_append, foldl_tasksAfter_signOff, hostCallsOf_append,
      ← List.append_assoc]
    have hunsigned : (d.within .ready s.unsigned).Signing (calls ++ hostCallsOf s.signOff) tasks
        queue := hq.unsign hs rfl rfl rfl
    exact hunsigned.plain (by simp [HostCall.isPlain])

/-- The sign is shown by the timer of the batch that is being sent and by nothing else. -/
theorem Transition.shows_sign {now : Int64} {d : Dialog} {op : Operation} {r : Reply}
    (h : Transition now d op r) (ht : .transmit true ∈ hostCallsOf r.turn.effects) :
    ∃ s, d.session = some s ∧ d.phase = .dispatching ∧
      op = .deliver ⟨s.token, .timeElapsed s.batch⟩ := by
  have signOff (s : Session) : .transmit true ∉ hostCallsOf s.signOff := by
    unfold Session.signOff
    split <;> simp
  cases h with
  | refused | unopened | unfailed | unheeded => cases ht
  | unchecked | progressed => simp at ht
  | opened => simp [FeedSource.opening] at ht
  | reopened | cancelled | loadFailed | completed | halted | brokenOff =>
    simp [FeedSource.opening, Session.closing, signOff] at ht
  | filtered | renamed => exact absurd (plain_refresh _ now _ ht) (by simp [HostCall.isPlain])
  | fetched | retried => simp [Dialog.batchEffects] at ht
  | loaded => simp [Dialog.tableEffects] at ht
  | timeElapsed s hp hs => exact ⟨s, hs, hp, rfl⟩

/-! ## Desks -/

theorem kept_signing : Kept BeginsFresh fun d calls tasks queue => d.Signing calls tasks queue where
  step ht hx h hfresh hnew time := by
    refine ht.signing hx.consistent h hx.abandoned hfresh (fun s jobs hs hstart => ?_) time
    refine hnew ?_ s jobs hs hstart
    -- An event that is handled begins no batch.
    by_contra hop
    exact ht.not_started hop _ hstart
  absorb _ _ state _ h hget :=
    h.absorb hget (Activity.resume_works _ state) (Activity.resume_keepsTo _ state)
  dequeue h hq := h.dequeue hq

theorem unordered_signing : Unordered fun d calls tasks queue => d.Signing calls tasks queue := by
  intro d calls tasks queue more h hq
  refine ⟨h.signed, fun s hs => ?_⟩
  rw [timersFor, hq.countP_eq]
  exact h.single s hs

namespace Desk

variable {σ : Type} {remote : Remote σ} {desk : Desk σ}

def Signing (desk : Desk σ) : Prop := desk.Has fun d calls tasks queue => d.Signing calls tasks queue

theorem signing_create (settings : DialogSettings) (wallClock : Int64) (s : σ) :
    (create settings wallClock s).Signing :=
  ⟨exclusive_create settings wallClock s, .create settings⟩

/-- An operation that does not begin a batch under a number that a timer waits with. -/
theorem beginsFresh {op : Operation} (h : ¬ desk.Renumbers (.operate op)) :
    BeginsFresh desk.dialog desk.tasks desk.queue (desk.dialog.perform desk.wallClock op) := by
  intro s jobs hs hstart
  by_contra hne
  exact h ⟨op, jobs, s, rfl, ⟨_, _, _, hstart⟩, hs, Nat.pos_of_ne_zero hne⟩

theorem Signing.steps {ts : List Step} (h : desk.Signing) (hown : ∀ t ∈ ts, t.Own)
    (hunmixed : desk.Unmixed remote ts) : (desk.steps remote ts).Signing := by
  induction ts generalizing desk with
  | nil => exact h
  | cons t ts ih =>
    obtain ⟨ht, hts⟩ := List.forall_mem_cons.mp hown
    obtain ⟨hfirst, hrest⟩ := hunmixed
    refine ih ?_ hts hrest
    exact Has.step h kept_signing unordered_signing ht (fun m hm => (hfirst m hm).1)
      fun op hop => beginsFresh (hfirst (.operate op) hop).2

def Shows (remote : Remote σ) (desk : Desk σ) (t : Step) : Prop :=
  ∃ new, (desk.step remote t).hostCalls = desk.hostCalls ++ new ∧ .transmit true ∈ new

/-- How the transmit sign is shown at a desk. The host is told to show it and to take it away in
turn, between two beginnings of batches it is shown once at most, and it is not up unless a batch is
being sent. What shows it is the expiry of the timer of the batch that is being sent, and of that
timer nothing is heard any more. The timer of another batch or session changes nothing when it
expires. -/
structure ShowsSign (remote : Remote σ) (desk : Desk σ) : Prop where
  alternating : Alternates (signsOf desk.hostCalls)
  once : ∀ a b c, desk.hostCalls = a ++ b ++ c → .controls false ∉ b →
    b.count (.transmit true) ≤ 1
  hidden : desk.dialog.phase ≠ .dispatching → (signsOf desk.hostCalls).getLast? ≠ some true
  timely : ∀ t, t.Own → t ≠ .move .settle → desk.Shows remote t → t = .move .handleNext ∧
    ∃ s rest, desk.dialog.session = some s ∧ desk.dialog.phase = .dispatching ∧
      desk.queue = ⟨s.token, .timeElapsed s.batch⟩ :: rest ∧
      timersFor s.token s.batch desk.tasks rest = 0
  stale : ∀ token batch rest, desk.queue = ⟨token, .timeElapsed batch⟩ :: rest →
    (∀ s, desk.dialog.session = some s → s.token = token → s.batch ≠ batch) →
    desk.move remote .handleNext = { desk with queue := rest }

theorem Signing.timely {t : Step} (h : desk.Signing) (hown : t.Own) (ht : t ≠ .move .settle)
    (hshows : desk.Shows remote t) : t = .move .handleNext ∧
    ∃ s rest, desk.dialog.session = some s ∧ desk.dialog.phase = .dispatching ∧
      desk.queue = ⟨s.token, .timeElapsed s.batch⟩ :: rest ∧
      timersFor s.token s.batch desk.tasks rest = 0 := by
  obtain ⟨new, hcalls, hmem⟩ := hshows
  have still (hsame : (desk.step remote t).hostCalls = desk.hostCalls) : False := by
    rw [hcalls, List.append_right_eq_self] at hsame
    simp [hsame] at hmem
  cases t with
  | prefer => exact (still rfl).elim
  | move m =>
    rw [Desk.step] at hcalls
    cases m with
    | operate op =>
      obtain ⟨r, hr, -, heq⟩ := after_transition h.exclusive.consistent.coherent op
      rw [Desk.move, heq] at hcalls
      obtain ⟨s, -, -, rfl⟩ := hr.shows_sign (List.append_cancel_left hcalls ▸ hmem)
      exact hown.elim
    | handleNext =>
      refine ⟨rfl, ?_⟩
      rcases handleNext_transition h.exclusive.consistent.coherent with
        ⟨-, heq⟩ | ⟨event, rest, r, hq, hr, heq⟩
      · exact (still (congrArg Desk.hostCalls heq)).elim
      · rw [Desk.move, heq] at hcalls
        obtain ⟨s, hs, hp, hop⟩ := hr.shows_sign (List.append_cancel_left hcalls ▸ hmem)
        obtain rfl := Operation.deliver.inj hop
        have hqueue := h.holds
        rw [hq] at hqueue
        exact ⟨s, rest, hs, hp, hq, (hqueue.elapse hs).1⟩
    | goOn index => exact (still (goOn_hostCalls remote desk index)).elim
    | settle => exact absurd rfl ht
    | dismissNext | pass | stopListening => exact (still rfl).elim

theorem Signing.showsSign (h : desk.Signing) : desk.ShowsSign remote where
  alternating := h.holds.signed.alternating
  once _ _ _ he hb := h.holds.signed.once_between he hb
  hidden hp hlast := by
    have hsigned := h.holds.signed.last.mp hlast
    cases hs : desk.dialog.session with
    | none => simp [Dialog.signed, hs] at hsigned
    | some s =>
      rw [Dialog.signed_of_session hs] at hsigned
      exact hp ((h.exclusive.consistent.session_fits s hs).sign hsigned)
  timely _ hown ht hshows := h.timely hown ht hshows
  stale token batch rest hq hother := by
    have hunheeded : ∀ event ∈ desk.queue.head?, ¬ desk.dialog.Heeds event := by
      rw [hq]
      rintro _ ⟨⟩ ⟨s, hs, htoken, hawaits⟩
      exact hother s hs htoken (hawaits.batch rfl)
    rw [Desk.move, handleNext_of_unheeded hunheeded, dismissNext, hq, List.tail_cons]

/-- At every moment of a run of a desk by itself the transmit sign has been shown properly, in
whatever order the events of its tasks are handled. Settling is a run of other steps. Tokens and the
numbers of batches have 64 bits, so this needs that no session is opened under a token that an event
still waits with, and that no batch begins under a number that a timer of the session still waits
with. -/
theorem sign_shown_properly (remote : Remote σ) (settings : DialogSettings) (wallClock : Int64)
    (s : σ) (ts : List Step) (hown : ∀ t ∈ ts, t.Own)
    (hunmixed : (create settings wallClock s).Unmixed remote ts) :
    ((create settings wallClock s).steps remote ts).ShowsSign remote :=
  ((signing_create settings wallClock s).steps hown hunmixed).showsSign

/-- A run in which the timer of a batch expires before the batch fails, and the event is put first
and handled before progress that was reported earlier. The timer of the retry is still under way
when it completes. -/
def signedRun : List Step :=
  [.move (.operate (.openOn default)), .move .settle, .move (.operate (.fetch ["a", "b"])),
    .move (.goOn 0), .move (.goOn 0), .move (.goOn 1), .move (.goOn 0), .prefer 1,
    .move .handleNext, .move .settle, .move (.operate .retry), .move .settle]

theorem signed_run_shows_sign :
    (∀ t ∈ signedRun, t.Own) ∧
      signsOf ((create ⟨25, 300, 0⟩ 0 true).steps (.wavering [{ url := "a" }, { url := "b" }])
        signedRun).hostCalls = [true, false] ∧
      ((create ⟨25, 300, 0⟩ 0 true).steps (.wavering [{ url := "a" }, { url := "b" }])
        signedRun).ShowsSign (.wavering [{ url := "a" }, { url := "b" }]) := by
  have hown : ∀ t ∈ signedRun, t.Own := by simp [signedRun, Step.Own]
  refine ⟨hown, by decide +kernel, sign_shown_properly _ _ _ _ _ hown ?_⟩
  exact unmixed_of_few (orderly_create _ _ _) (counted_create _ _ _) hown (by decide)
    (by decide +kernel)

end Desk

end FeedDesk
