import FeedDesk.Proofs.Desk.BatchRuns
import FeedDesk.Proofs.Desk.Steps

/-!
# Timers

The timer of a batch goes on after the batch has failed; only closing the view stops it. So the
timers of several batches can be under way at once, and what tells them apart is the number of the
batch. Numbers have 64 bits: a session that begins fewer than `2 ^ 64` batches gives none to two of
them.
-/
namespace FeedDesk

def Running.times (token : SessionToken) (batch : UInt64) (t : Running) : Bool :=
  t.activity.token = token ∧ t.activity.kind = .timer ∧ t.activity.batch? = some batch

def Event.elapses (token : SessionToken) (batch : UInt64) (e : Event) : Bool :=
  e.token = token ∧ e.report.ends? = some .timer ∧ e.report.batch? = some batch

/-- The number of timers of a batch of which it has not been heard that they have expired. -/
def timersFor (token : SessionToken) (batch : UInt64) (tasks : List Running)
    (queue : List Event) : Nat :=
  tasks.countP (·.times token batch) + queue.countP (·.elapses token batch)

section
variable {token : SessionToken} {batch : UInt64} {tasks : List Running} {queue : List Event}

theorem timersFor_cons_event (e : Event) :
    timersFor token batch tasks (e :: queue) =
      timersFor token batch tasks queue + if e.elapses token batch then 1 else 0 := by
  rw [timersFor, timersFor, List.countP_cons, Nat.add_assoc]

theorem timersFor_le_of_sublist {more : List Event} (h : queue.Sublist more) :
    timersFor token batch tasks queue ≤ timersFor token batch tasks more :=
  Nat.add_le_add_left h.countP_le _

theorem timersFor_append_tasks (more : List Running) :
    timersFor token batch (tasks ++ more) queue =
      timersFor token batch tasks queue + more.countP (·.times token batch) := by
  simp only [timersFor, List.countP_append]
  omega

theorem timersFor_append (more : List Running) (events : List Event) :
    timersFor token batch (tasks ++ more) (queue ++ events) =
      timersFor token batch tasks queue + timersFor token batch more events := by
  simp only [timersFor, List.countP_append]
  omega

theorem timersFor_eraseIdx {index : Nat} {task : Running} (h : tasks[index]? = some task) :
    timersFor token batch (tasks.eraseIdx index) queue +
        (if task.times token batch then 1 else 0) = timersFor token batch tasks queue := by
  have hperm := (perm_eraseIdx h).countP_eq (·.times token batch)
  rw [List.countP_cons] at hperm
  simp only [timersFor]
  omega

theorem timersFor_eq_zero_iff :
    timersFor token batch tasks queue = 0 ↔
      (∀ t ∈ tasks, ¬ t.times token batch) ∧ ∀ e ∈ queue, ¬ e.elapses token batch := by
  rw [timersFor, Nat.add_eq_zero_iff, List.countP_eq_zero, List.countP_eq_zero]

theorem Underway.countP_elapses {events : List Event} (h : Underway token events)
    (other : SessionToken) (batch : UInt64) : events.countP (·.elapses other batch) = 0 := by
  rw [List.countP_eq_zero]
  intro e he
  simp [Event.elapses, (h e he).2]

/-- A timer that goes on waits or has expired, and other tasks do not turn into timers. -/
theorem Burst.Works.timersFor_le {σ : Type} {burst : Burst σ} {task : Running}
    (h : burst.Works task.activity.token task.activity.kind)
    (hk : burst.KeepsTo task.activity.batch?) :
    timersFor token batch burst.next.toList burst.events ≤
      if task.times token batch then 1 else 0 := by
  unfold timersFor
  cases h with
  | waits other hn ht hkind hq =>
    have hbatch := hk.next other (by simp [hn])
    rw [hn, hq.countP_elapses, Option.toList_some, List.countP_singleton]
    simp [Running.times, ht, hkind, hbatch]
  | ends early last hn he hq ht hends =>
    rw [hn, he, List.countP_append, hq.countP_elapses, List.countP_singleton]
    by_cases hlast : last.elapses token batch = true
    · simp only [Event.elapses, decide_eq_true_eq] at hlast
      have hbatch := hk.events last (by simp [he]) batch hlast.2.2
      have htimes : task.times token batch = true := by
        simp [Running.times, ← ht, hlast.1, Option.some.inj (hends.symm.trans hlast.2.1), hbatch]
      rw [if_pos htimes, Option.toList_none, List.countP_nil]
      split <;> omega
    · simp [hlast]

theorem timersFor_absorb {σ : Type} {burst : Burst σ} {index : Nat} {task : Running}
    (hget : tasks[index]? = some task)
    (hw : burst.Works task.activity.token task.activity.kind)
    (hk : burst.KeepsTo task.activity.batch?) :
    timersFor token batch (tasks.eraseIdx index ++ burst.next.toList) (queue ++ burst.events) ≤
      timersFor token batch tasks queue := by
  have hburst : timersFor token batch burst.next.toList burst.events ≤
      if task.times token batch then 1 else 0 := hw.timersFor_le hk
  have herase : timersFor token batch (tasks.eraseIdx index) queue +
      (if task.times token batch then 1 else 0) = timersFor token batch tasks queue :=
    timersFor_eraseIdx hget
  rw [timersFor_append]
  omega

end

/-! ## The numbers that timers carry -/

/-- A view whose session has begun a number of batches. Its tasks and the events that wait for it
name none but these. -/
structure Dialog.Counted (begun : Nat) (d : Dialog) (tasks : List Running) (queue : List Event) :
    Prop where
  batch : ∀ s, d.session = some s → s.batch = .ofNat begun
  working : ∀ s, d.session = some s → ∀ t ∈ tasks, t.activity.token = s.token →
    ∀ batch, t.activity.batch? = some batch → ∃ j ≤ begun, batch = .ofNat j
  reported : ∀ s, d.session = some s → ∀ e ∈ queue, e.token = s.token →
    ∀ batch, e.report.batch? = some batch → ∃ j ≤ begun, batch = .ofNat j

namespace Dialog.Counted

variable {begun : Nat} {d : Dialog} {tasks : List Running} {queue : List Event} {s : Session}

theorem dequeue {more : List Event} (hc : d.Counted begun tasks more) (hq : queue.Sublist more) :
    d.Counted begun tasks queue :=
  ⟨hc.batch, hc.working, fun s hs e he => hc.reported s hs e (hq.subset he)⟩

theorem within {s' : Session} {phase : Phase} (hc : d.Counted begun tasks queue)
    (hs : d.session = some s) (ht : s'.token = s.token) (hb : s'.batch = s.batch) :
    (d.within phase s').Counted begun tasks queue := by
  constructor
  · rintro _ ⟨⟩
    rw [hb]
    exact hc.batch s hs
  · rintro _ ⟨⟩
    rw [ht]
    exact hc.working s hs
  · rintro _ ⟨⟩
    rw [ht]
    exact hc.reported s hs

theorem left (d : Dialog) (begun : Nat) (tasks : List Running) (queue : List Event) :
    d.left.Counted begun tasks queue :=
  ⟨by simp [Dialog.left], by simp [Dialog.left], by simp [Dialog.left]⟩

theorem entered (hfresh : ∀ e ∈ queue, e.token ≠ d.lastToken.next) (time : Nat)
    (source : FeedSource) :
    (d.entered source).Counted 0 ((source.opening d.lastToken.next).foldl (tasksAfter time) [])
      queue := by
  constructor
  · rintro _ ⟨⟩
    rfl
  · rintro _ ⟨⟩ t ht - batch hb
    rw [foldl_tasksAfter_opening, List.nil_append, List.mem_singleton] at ht
    rw [ht] at hb
    cases hb
  · rintro _ ⟨⟩ e he htoken
    exact absurd htoken (hfresh e he)

theorem refreshed {s' : Session} (hc : d.Counted begun tasks queue) (hs : d.session = some s)
    (ht : s'.token = s.token) (hb : s'.batch = s.batch) (hfits : s'.Fits .ready) (now : Int64)
    (time : Nat) :
    ((d.within d.phase s').refresh now).dialog.Counted begun
      (((d.within d.phase s').refresh now).effects.foldl (tasksAfter time) tasks) queue := by
  obtain ⟨⟨items, hi, -⟩, -⟩ := hfits.loaded (.inl rfl)
  rw [refresh_of_items rfl hi]
  exact hc.within hs ht hb

theorem send {s' : Session} (hc : d.Counted begun tasks queue) (hs : d.session = some s)
    (ht : s'.token = s.token) (hb : s'.batch = s.batch + 1) (time : Nat) (jobs : JobQueue) :
    (d.within .dispatching s').Counted (begun + 1)
      ((d.batchEffects s jobs).foldl (tasksAfter time) tasks) queue := by
  have hnext : s.batch + 1 = .ofNat (begun + 1) := by
    rw [hc.batch s hs, UInt64.ofNat_add]
    rfl
  constructor
  · rintro _ ⟨⟩
    rw [hb, hnext]
  · rintro _ ⟨⟩ t hmem htoken batch hbatch
    rw [foldl_tasksAfter_batch, List.mem_append, List.mem_cons, List.mem_singleton] at hmem
    rcases hmem with hmem | rfl | rfl
    · obtain ⟨j, hj, he⟩ := hc.working s hs t hmem (htoken.trans ht) batch hbatch
      exact ⟨j, by omega, he⟩
    · exact ⟨begun + 1, Nat.le_refl _, (Option.some.inj hbatch).symm.trans hnext⟩
    · exact ⟨begun + 1, Nat.le_refl _, (Option.some.inj hbatch).symm.trans hnext⟩
  · rintro _ ⟨⟩ e he htoken batch hbatch
    obtain ⟨j, hj, he⟩ := hc.reported s hs e he (htoken.trans ht) batch hbatch
    exact ⟨j, by omega, he⟩

theorem absorb {σ : Type} {burst : Burst σ} {index : Nat} {task : Running}
    (hc : d.Counted begun tasks queue) (hget : tasks[index]? = some task)
    (hw : burst.Works task.activity.token task.activity.kind)
    (hk : burst.KeepsTo task.activity.batch?) :
    d.Counted begun (tasks.eraseIdx index ++ burst.next.toList) (queue ++ burst.events) := by
  have hworking (s : Session) (hs : d.session = some s) (htoken : task.activity.token = s.token) :=
    hc.working s hs task (List.mem_of_getElem? hget) htoken
  refine ⟨hc.batch, fun s hs t ht htoken batch hbatch => ?_, fun s hs e he htoken batch hbatch => ?_⟩
  · rcases List.mem_append.mp ht with ht | ht
    · exact hc.working s hs t (List.mem_of_mem_eraseIdx ht) htoken batch hbatch
    · rw [hk.next t ht] at hbatch
      exact hworking s hs ((hw.next_token t ht).symm.trans htoken) batch hbatch
  · rcases List.mem_append.mp he with he | he
    · exact hc.reported s hs e he htoken batch hbatch
    · exact hworking s hs ((hw.event_token e he).symm.trans htoken) batch
        (hk.events e he batch hbatch)

end Dialog.Counted

/-- Every step counts the batches of the session. A batch begins with a call that withdraws the
controls. -/
theorem Transition.counted {now : Int64} {begun : Nat} {d : Dialog} {tasks : List Running}
    {queue : List Event} {op : Operation} {r : Reply} (h : Transition now d op r)
    (hd : d.Consistent) (hc : d.Counted begun tasks (op.handled ++ queue))
    (habandoned : d.phase = .closed → tasks = [])
    (hfresh : 0 < op.openings → ∀ e ∈ queue, e.token ≠ d.lastToken.next) (time : Nat) :
    ∃ begun' ≤ begun + (hostCallsOf r.turn.effects).count (.controls false),
      r.turn.dialog.Counted begun' (r.turn.effects.foldl (tasksAfter time) tasks) queue := by
  have hq : d.Counted begun tasks queue := hc.dequeue (List.sublist_append_right _ _)
  have fits {s : Session} (hs : d.session = some s) (hp : d.phase = .ready) : s.Fits .ready :=
    hp ▸ hd.session_fits s hs
  cases h with
  | refused | unopened | unchecked | unfailed | unheeded | progressed =>
    exact ⟨begun, Nat.le_add_right _ _, hq⟩
  | opened source hp =>
    rw [habandoned hp]
    exact ⟨0, Nat.zero_le _, .entered (hfresh Nat.one_pos) time source⟩
  | reopened source s =>
    simp only [List.foldl_append, foldl_tasksAfter_closing]
    exact ⟨0, Nat.zero_le _, .entered (hfresh Nat.one_pos) time source⟩
  | cancelled | loadFailed | completed => exact ⟨begun, Nat.le_add_right _ _, .left ..⟩
  | filtered filter s hp hs =>
    exact ⟨begun, Nat.le_add_right _ _,
      hq.refreshed hs (by rfl) (by rfl) ((fits hs hp).filtered filter) now time⟩
  | renamed naming s hp hs =>
    exact ⟨begun, Nat.le_add_right _ _,
      hq.refreshed hs (by rfl) (by rfl) ((fits hs hp).renamed naming) now time⟩
  | fetched _ jobs s _ hs =>
    exact ⟨begun + 1, Nat.le_refl _, hq.send hs (by rfl) (by rfl) time jobs⟩
  | retried failure s _ hs =>
    exact ⟨begun + 1, Nat.le_refl _, hq.send hs (by rfl) (by rfl) time failure.retryQueue⟩
  | loaded _ s _ hs | timeElapsed s _ hs =>
    exact ⟨begun, Nat.le_add_right _ _, hq.within hs (by rfl) (by rfl)⟩
  | halted _ s _ hs | brokenOff _ s _ hs =>
    simp only [List.foldl_append, foldl_tasksAfter_signOff]
    exact ⟨begun, Nat.le_add_right _ _, hq.within hs (by rfl) (by rfl)⟩

/-- A view whose session has begun a number of batches, not more than the host has heard of. -/
def CountsBatches (d : Dialog) (calls : List HostCall) (tasks : List Running)
    (queue : List Event) : Prop :=
  ∃ begun ≤ calls.count (.controls false), d.Counted begun tasks queue

theorem kept_countsBatches : Kept (fun _ _ _ _ => True) CountsBatches where
  step ht hx h hfresh _ time := by
    obtain ⟨begun, hbegun, hc⟩ := h
    obtain ⟨begun', hbegun', hc'⟩ := ht.counted hx.consistent hc hx.abandoned hfresh time
    refine ⟨begun', ?_, hc'⟩
    rw [List.count_append]
    omega
  absorb _ _ state hx h hget := by
    obtain ⟨begun, hbegun, hc⟩ := h
    exact ⟨begun, hbegun, hc.absorb hget (Activity.resume_works _ state)
      (Activity.resume_keepsTo _ state)⟩
  dequeue h hq := by
    obtain ⟨begun, hbegun, hc⟩ := h
    exact ⟨begun, hbegun, hc.dequeue hq⟩

theorem unordered_countsBatches : Unordered CountsBatches := by
  rintro d calls tasks queue more ⟨begun, hbegun, hc⟩ hq
  exact ⟨begun, hbegun, hc.batch, hc.working, fun s hs e he =>
    hc.reported s hs e (hq.mem_iff.mp he)⟩

namespace Desk

variable {σ : Type} {remote : Remote σ} {desk : Desk σ}

/-- Whether a move begins a batch under a number that a timer of the session still waits with, or
an event of one. -/
def Renumbers (desk : Desk σ) (m : Move) : Prop :=
  ∃ op jobs s, m = .operate op ∧ desk.Begins op jobs ∧ desk.dialog.session = some s ∧
    0 < timersFor s.token (s.batch + 1) desk.tasks desk.queue

/-- Whether no step of a run opens a session under a token that an event waits with, or begins a
batch under a number that a timer waits with. -/
def Unmixed (remote : Remote σ) (desk : Desk σ) : List Step → Prop
  | [] => True
  | t :: ts => (∀ m, t = .move m → ¬ desk.Reuses m ∧ ¬ desk.Renumbers m) ∧
    Unmixed remote (desk.step remote t) ts

def Counted (desk : Desk σ) : Prop := desk.Has CountsBatches

theorem counted_create (settings : DialogSettings) (wallClock : Int64) (s : σ) :
    (create settings wallClock s).Counted :=
  ⟨exclusive_create settings wallClock s, 0, Nat.zero_le _, by simp [create, Dialog.create],
    by simp [create, Dialog.create], by simp [create, Dialog.create]⟩

/-! ## Fewer than `2 ^ 64` batches -/

theorem hostCalls_prefix_after (desk : Desk σ) (op : Operation) :
    desk.hostCalls <+: (desk.after op).hostCalls := by
  rw [after, perform, follow_eq]
  exact List.prefix_append _ _

theorem hostCalls_prefix_handleNext (desk : Desk σ) :
    desk.hostCalls <+: desk.handleNext.hostCalls := by
  unfold handleNext
  split
  · exact List.prefix_refl _
  next event rest _ =>
    exact hostCalls_prefix_after { desk with queue := rest } (.deliver event)

theorem goOn_hostCalls (remote : Remote σ) (desk : Desk σ) (index : Nat) :
    (desk.goOn remote index).hostCalls = desk.hostCalls := by
  rcases goOn_resume remote desk index with ⟨-, heq⟩ | ⟨task, time, -, heq⟩ <;> rw [heq]
  rfl

/-- What the host was told before a move it was told after it. -/
theorem hostCalls_prefix_move (remote : Remote σ) (desk : Desk σ) (m : Move) :
    desk.hostCalls <+: (desk.move remote m).hostCalls := by
  cases m with
  | operate op => exact hostCalls_prefix_after desk op
  | handleNext => exact hostCalls_prefix_handleNext desk
  | goOn index =>
    exact ⟨[], (List.append_nil _).trans (goOn_hostCalls remote desk index).symm⟩
  | settle =>
    refine settle_induction (P := fun later => desk.hostCalls <+: later.hostCalls) ?_ ?_
      (List.prefix_refl _)
    · exact fun later h => h.trans (hostCalls_prefix_handleNext later)
    · intro later index h
      rwa [goOn_hostCalls]
  | dismissNext | pass | stopListening => exact List.prefix_refl _

theorem hostCalls_prefix_step (remote : Remote σ) (desk : Desk σ) (t : Step) :
    desk.hostCalls <+: (desk.step remote t).hostCalls := by
  cases t with
  | move m => exact hostCalls_prefix_move remote desk m
  | prefer => exact List.prefix_refl _

theorem hostCalls_prefix_steps (remote : Remote σ) (desk : Desk σ) (ts : List Step) :
    desk.hostCalls <+: (desk.steps remote ts).hostCalls := by
  induction ts generalizing desk with
  | nil => exact List.prefix_refl _
  | cons t ts ih => exact (hostCalls_prefix_step remote desk t).trans (ih _)

theorem Begins.count {op : Operation} {jobs : JobQueue} (hc : desk.dialog.Coherent)
    (hb : desk.Begins op jobs) :
    (desk.after op).hostCalls.count (.controls false) =
      desk.hostCalls.count (.controls false) + 1 := by
  obtain ⟨token, batch, defaults, hstart⟩ := hb
  have ht : Transition desk.wallClock desk.dialog op (desk.dialog.perform desk.wallClock op) :=
    perform_transition hc op
  obtain ⟨-, s, -, hturn⟩ := ht.sends hstart
  have heq : desk.after op = desk.follow (desk.dialog.perform desk.wallClock op).turn := rfl
  rw [heq, hturn, follow_eq, List.count_append]
  rfl

/-- A batch does not begin under a number that a timer waits with, unless the session has begun
`2 ^ 64` batches. -/
theorem Counted.not_renumbers {m : Move} (h : desk.Counted)
    (hfew : (desk.move remote m).hostCalls.count (.controls false) < UInt64.size) :
    ¬ desk.Renumbers m := by
  rintro ⟨op, jobs, s, rfl, hb, hs, hpos⟩
  obtain ⟨begun, hbegun, hc⟩ := h.holds
  have hcount := hb.count h.exclusive.consistent.coherent
  rw [Desk.move, hcount] at hfew
  have hnext : s.batch + 1 = .ofNat (begun + 1) := by
    rw [hc.batch s hs, UInt64.ofNat_add]
    rfl
  -- Below `2 ^ 64` different numbers stay different as words.
  have hnone : ∀ j ≤ begun, s.batch + 1 ≠ .ofNat j := by
    intro j hj he
    have hnumber := congrArg UInt64.toNat (hnext.symm.trans he)
    rw [UInt64.toNat_ofNat_of_lt' (by omega), UInt64.toNat_ofNat_of_lt' (by omega)] at hnumber
    omega
  refine absurd hpos (Nat.not_lt.mpr (Nat.le_of_eq (timersFor_eq_zero_iff.mpr ⟨?_, ?_⟩)))
  · intro t ht htimes
    simp only [Running.times, decide_eq_true_eq] at htimes
    obtain ⟨j, hj, he⟩ := hc.working s hs t ht htimes.1 _ htimes.2.2
    exact hnone j hj he
  · intro e he helapses
    simp only [Event.elapses, decide_eq_true_eq] at helapses
    obtain ⟨j, hj, hnumber⟩ := hc.reported s hs e he helapses.1 _ helapses.2.2
    exact hnone j hj hnumber

/-- A run that opens fewer than `2 ^ 64` sessions and begins fewer than `2 ^ 64` batches mixes none
of them up. -/
theorem unmixed_of_few {opened : Nat} {ts : List Step} (ho : desk.Orderly opened)
    (hc : desk.Counted) (hown : ∀ t ∈ ts, t.Own) (hopen : opened + openingsIn ts < UInt64.size)
    (hfew : (desk.steps remote ts).hostCalls.count (.controls false) < UInt64.size) :
    desk.Unmixed remote ts := by
  induction ts generalizing desk opened with
  | nil => trivial
  | cons t ts ih =>
    obtain ⟨ht, hts⟩ := List.forall_mem_cons.mp hown
    rw [openingsIn_cons, ← Nat.add_assoc] at hopen
    have hprefix : (desk.step remote t).hostCalls <+: (desk.steps remote (t :: ts)).hostCalls :=
      hostCalls_prefix_steps remote _ ts
    have hcount := hprefix.sublist.count_le (.controls false)
    have hfresh : ∀ m, t = .move m → ¬ desk.Reuses m := by
      rintro m rfl ⟨hopens, e, he, htoken⟩
      exact Dialog.Orderly.unheard ho (by simp only [Step.openings] at hopen; omega) e he htoken
    have hnew : ∀ m, t = .move m → ¬ desk.Renumbers m := by
      rintro m rfl
      exact hc.not_renumbers (Nat.lt_of_le_of_lt hcount hfew)
    refine ⟨fun m hm => ⟨hfresh m hm, hnew m hm⟩, ih (ho.step ht (by omega)) ?_ hts hopen hfew⟩
    exact Has.step hc kept_countsBatches unordered_countsBatches ht hfresh fun _ _ => trivial

end Desk

end FeedDesk
