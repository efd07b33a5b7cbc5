import FeedDesk.Proofs.Desk.BatchRuns
import FeedDesk.Proofs.Desk.Loading

/-!
# A fetch and its retries

A batch whose calls are all answered settles in one of two ways. Either all jobs of the fetch are
acknowledged and the view is closed, or the view is ready and keeps a failure, and then the jobs
that are not acknowledged are those of the retry, of which there is at least one. So a retry can
follow, and that again settles in one of the two ways.
-/
namespace FeedDesk

def Remote.Answers {σ : Type} (remote : Remote σ) : Prop :=
  ∀ request s text, (remote.append request s).1.outcome ≠ .breaks text

def Unbroken (record : List Attempt) : Prop := ∀ a ∈ record, ∀ text, a.2 ≠ .breaks text

/-! ## Attempts that are answered -/

section
variable {σ : Type} {remote : Remote σ} {now : Nat}

namespace BatchWork

variable {w : BatchWork} {unheard : List BatchProgress} {done : List Job} {job : Job}
  {rest : List Job} {s : σ × List Attempt}

theorem send_unbroken (hr : remote.Answers) (hs : Unbroken s.2)
    (h : ∀ outcome (s : σ × List Attempt), Unbroken s.2 →
      Unbroken (w.goOn remote.recording now unheard done job outcome rest s).remote.2) :
    Unbroken (w.send remote.recording now unheard done job rest s).remote.2 := by
  have hadded : Unbroken (remote.recording.append (job.request w.defaults) s).2.2 := by
    intro a ha text
    rcases List.mem_append.mp ha with ha | ha
    · exact hs a ha text
    · rw [List.mem_singleton.mp ha]
      exact hr _ _ text
  unfold send
  dsimp only
  split
  · exact h _ _ hadded
  · exact hadded

theorem goOn_unbroken (hr : remote.Answers) (hs : Unbroken s.2) (outcome : CallOutcome Bool) :
    Unbroken (w.goOn remote.recording now unheard done job outcome rest s).remote.2 := by
  refine w.goOn_induction (P := fun _ _ _ _ _ (s : σ × List Attempt) burst =>
      Unbroken s.2 → Unbroken burst.remote.2)
    ?breaks ?refused ?last ?more unheard done job outcome rest s hs
  case breaks | refused | last =>
    intros
    assumption
  case more =>
    intro _ _ _ _ _ _ _ _ ih hs
    exact send_unbroken hr hs fun outcome s hs => ih _ _ outcome s hs

end BatchWork

theorem Activity.resume_unbroken (hr : remote.Answers) (a : Activity) {s : σ × List Attempt}
    (hs : Unbroken s.2) : Unbroken (a.resume remote.recording now s).remote.2 := by
  cases a with
  | unstarted task =>
    cases task with
    | load | timer => exact hs
    | dispatch token batch defaults queue =>
      rw [resume, start_dispatch]
      exact BatchWork.send_unbroken hr hs fun outcome s hs =>
        BatchWork.goOn_unbroken hr hs outcome
  | loading | waiting => exact hs
  | appending w done job outcome rest => exact BatchWork.goOn_unbroken hr hs outcome

end

/-! ## The number of batches -/

def Effect.isBatch : Effect → Bool
  | .start (.dispatch ..) => true
  | _ => false

/-- The number of batches that an operation may start. -/
def Operation.batches : Operation → Nat
  | .fetch _ | .retry => 1
  | _ => 0

def Move.batches : Move → Nat
  | .operate op => op.batches
  | _ => 0

def batchesOf (ms : List Move) : Nat := ms.foldr (fun m n => m.batches + n) 0

theorem batchesOf_cons (m : Move) (ms : List Move) :
    batchesOf (m :: ms) = m.batches + batchesOf ms := rfl

theorem batchesOf_append (a b : List Move) :
    batchesOf (a ++ b) = batchesOf a + batchesOf b :=
  counted_append Move.batches a b

/-- Effects that withdraw the controls once for each batch that they start, `n` times in all. -/
def Withdraws (n : Nat) (effects : List Effect) : Prop :=
  (hostCallsOf effects).count (.controls false) = n ∧ effects.countP Effect.isBatch = n

theorem Withdraws.append {m n : Nat} {a b : List Effect} (ha : Withdraws m a)
    (hb : Withdraws n b) : Withdraws (m + n) (a ++ b) := by
  constructor
  · rw [hostCallsOf_append, List.count_append, ha.1, hb.1]
  · rw [List.countP_append, ha.2, hb.2]

theorem withdraws_signOff (s : Session) : Withdraws 0 s.signOff := by
  unfold Session.signOff
  split <;> exact ⟨rfl, rfl⟩

theorem withdraws_closing (s : Session) : Withdraws 0 s.closing :=
  .append (m := 0) (n := 0) (a := [.abandonTasks]) ⟨rfl, rfl⟩
    (.append (n := 0) (withdraws_signOff s) ⟨rfl, rfl⟩)

theorem withdraws_refresh (d : Dialog) (now : Int64) : Withdraws 0 (d.refresh now).effects := by
  unfold Dialog.refresh
  split
  · exact ⟨rfl, rfl⟩
  · dsimp only
    split <;> exact ⟨rfl, rfl⟩

/-- Only fetches and retries start a batch, one at a time, and the controls are withdrawn whenever
one starts and at no other time. -/
theorem Transition.withdraws {now : Int64} {d : Dialog} {op : Operation} {r : Reply}
    (h : Transition now d op r) : ∃ n ≤ op.batches, Withdraws n r.turn.effects := by
  cases h with
  | refused | unopened | unchecked | unfailed | unheeded | opened | progressed | timeElapsed
  | loaded => exact ⟨0, Nat.zero_le _, rfl, rfl⟩
  | reopened _ s => exact ⟨0, Nat.le_refl _, (withdraws_closing s).append (n := 0) ⟨rfl, rfl⟩⟩
  | cancelled s => exact ⟨0, Nat.le_refl _, withdraws_closing s⟩
  | loadFailed _ _ s => exact ⟨0, Nat.le_refl _, (withdraws_closing s).append (n := 0) ⟨rfl, rfl⟩⟩
  | completed _ s =>
    have hleave := (withdraws_signOff s).append (withdraws_closing s.unsigned)
    exact ⟨0, Nat.le_refl _, hleave.append (n := 0) ⟨rfl, rfl⟩⟩
  | filtered | renamed => exact ⟨0, Nat.le_refl _, withdraws_refresh _ now⟩
  | halted _ s | brokenOff _ s =>
    exact ⟨0, Nat.le_refl _, (withdraws_signOff s).append (n := 0) ⟨rfl, rfl⟩⟩
  | fetched | retried => exact ⟨1, Nat.le_refl _, rfl, rfl⟩

/-! ## Moves at an open view -/

/-- A move of a desk by itself that opens nothing and that does not stop listening. -/
structure Move.Routine (m : Move) : Prop where
  own : m.Own
  opens : m.openings = 0
  listens : m ≠ .stopListening

theorem Move.routine_settle : Move.Routine .settle := ⟨trivial, rfl, by simp⟩

theorem Move.routine_operate {op : Operation} (hown : (Move.operate op).Own)
    (hopens : (Move.operate op).openings = 0) : (Move.operate op).Routine :=
  ⟨hown, hopens, by simp⟩

/-- A routine move loses no event. -/
theorem Move.Routine.ne_dismissNext {m : Move} (h : m.Routine) : m ≠ .dismissNext := by
  rintro rfl
  exact h.own

theorem openingsOf_routine {ms : List Move} (h : ∀ m ∈ ms, m.Routine) : openingsOf ms = 0 := by
  induction ms with
  | nil => rfl
  | cons m ms ih =>
    obtain ⟨hm, hms⟩ := List.forall_mem_cons.mp h
    rw [openingsOf_cons, hm.opens, ih hms]

namespace Desk

variable {σ : Type} {remote : Remote σ} {opened : Nat} {defaults : DispatchDefaults}
  {jobs : List Job}

/-- The number of batches that a desk has started: before each it withdraws the controls. -/
def batchCount (desk : Desk σ) : Nat := desk.hostCalls.count (.controls false)

section
variable {desk : Desk σ}

theorem batchCount_after (hc : desk.dialog.Coherent) (op : Operation) :
    (desk.after op).batchCount ≤ desk.batchCount + op.batches := by
  obtain ⟨r, ht, -, heq⟩ := after_transition hc op
  obtain ⟨n, hn, hcount, -⟩ := ht.withdraws
  rw [heq, batchCount, List.count_append, hcount]
  exact Nat.add_le_add_left hn _

theorem batchCount_handleNext (hc : desk.dialog.Coherent) :
    desk.handleNext.batchCount ≤ desk.batchCount := by
  rcases handleNext_transition hc with ⟨-, heq⟩ | ⟨event, rest, r, -, ht, heq⟩
  · exact Nat.le_of_eq (congrArg batchCount heq)
  · obtain ⟨n, hn, hcount, -⟩ := ht.withdraws
    rw [heq, batchCount, List.count_append, hcount]
    exact Nat.add_le_add_left hn _

theorem batchCount_goOn (desk : Desk σ) (index : Nat) :
    (desk.goOn remote index).batchCount = desk.batchCount := by
  rcases goOn_resume remote desk index with ⟨-, heq⟩ | ⟨task, time, -, heq⟩ <;> rw [heq]
  rfl

theorem Unstuck.batchCount_moves {ms : List Move} (hu : desk.Unstuck)
    (hms : ∀ m ∈ ms, m.Routine) :
    (desk.moves remote ms).batchCount ≤ desk.batchCount + batchesOf ms := by
  induction ms generalizing desk with
  | nil => exact Nat.le_refl _
  | cons m ms ih =>
    obtain ⟨hm, hrest⟩ := List.forall_mem_cons.mp hms
    have hmove : (desk.move remote m).batchCount ≤ desk.batchCount + m.batches := by
      cases m with
      | operate op => exact batchCount_after hu.coherent op
      | handleNext => exact batchCount_handleNext hu.coherent
      | dismissNext => exact hm.own.elim
      | goOn index => exact Nat.le_of_eq (batchCount_goOn desk index)
      | settle =>
        refine (settle_induction (P := fun later => later.Unstuck ∧
          later.batchCount ≤ desk.batchCount) ?_ ?_ ⟨hu, Nat.le_refl _⟩).2
        · exact fun later h =>
            ⟨h.1.handleNext, Nat.le_trans (batchCount_handleNext h.1.coherent) h.2⟩
        · exact fun later index h =>
            ⟨h.1.goOn index, Nat.le_trans (Nat.le_of_eq (batchCount_goOn later index)) h.2⟩
      | pass | stopListening => exact Nat.le_refl _
    have hunstuck : (desk.move remote m).Unstuck := hu.move hm.ne_dismissNext
    have hih := ih hunstuck hrest
    rw [batchesOf_cons, ← Nat.add_assoc]
    exact Nat.le_trans hih (Nat.add_le_add_right hmove _)

end

variable {start desk : Desk (σ × List Attempt)}

theorem unbroken_moves (hr : remote.Answers) (h : Unbroken desk.remote.2) (ms : List Move) :
    Unbroken (desk.moves remote.recording ms).remote.2 := by
  have next : ∀ desk : Desk (σ × List Attempt), Unbroken desk.remote.2 →
      Unbroken desk.handleNext.remote.2 := by
    intro desk h
    unfold handleNext
    split
    · exact h
    · rw [after, perform, follow_eq]
      exact h
  have gone : ∀ (desk : Desk (σ × List Attempt)) (index : Nat), Unbroken desk.remote.2 →
      Unbroken (desk.goOn remote.recording index).remote.2 := by
    intro desk index h
    rcases goOn_resume remote.recording desk index with ⟨-, heq⟩ | ⟨task, time, -, heq⟩
    · rw [heq]
      exact h
    · rw [heq]
      exact task.activity.resume_unbroken hr h
  induction ms generalizing desk with
  | nil => exact h
  | cons m ms ih =>
    refine ih ?_
    cases m with
    | operate op =>
      rw [move, after, perform, follow_eq]
      exact h
    | handleNext => exact next desk h
    | goOn index => exact gone desk index h
    | settle => exact settle_induction (P := fun desk : Desk (σ × List Attempt) =>
        Unbroken desk.remote.2) next gone h
    | dismissNext | pass | stopListening => exact h

/-- A desk whose view was opened once, with all that a batch needs to be sent to its end: its work
is in order, somebody listens, and no call has broken off. -/
structure Steady (desk : Desk (σ × List Attempt)) : Prop where
  orderly : desk.Orderly 1
  trailed : desk.Trailed
  unstuck : desk.Unstuck
  listening : desk.listening = true
  unbroken : Unbroken desk.remote.2

theorem steady_opened (settings : DialogSettings) (wallClock : Int64) (s : σ)
    (source : FeedSource) :
    ((create settings wallClock (s, ([] : List Attempt))).after (.openOn source)).Steady where
  orderly := by
    have horderly : ((create settings wallClock (s, ([] : List Attempt))).after
        (.openOn source)).Orderly (0 + (Operation.openOn source).openings) :=
      (orderly_create settings wallClock (s, [])).after rfl (by decide : 1 < UInt64.size)
    exact horderly
  trailed := by
    refine Has.after (trailed_create settings wallClock (s, [])) kept_trailed rfl ?_ trivial
    rintro ⟨-, e, he, -⟩
    cases he
  unstuck := (unstuck_create settings wallClock (s, [])).after (.openOn source)
  listening := by rw [after, perform, follow_eq]; rfl
  unbroken := by
    rw [after, perform, follow_eq]
    simp [create, Unbroken]

theorem Steady.moves (h : desk.Steady) (hr : remote.Answers) {ms : List Move}
    (hms : ∀ m ∈ ms, m.Routine) : (desk.moves remote.recording ms).Steady := by
  have hown : ∀ m ∈ ms, m.Own := fun m hm => (hms m hm).own
  have hfew : 1 + openingsOf ms < UInt64.size := by
    rw [openingsOf_routine hms]
    decide
  have horderly : (desk.moves remote.recording ms).Orderly (1 + openingsOf ms) :=
    h.orderly.moves hown hfew
  rw [openingsOf_routine hms] at horderly
  exact ⟨horderly, h.trailed.moves hown (h.orderly.fresh hown hfew),
    h.unstuck.moves fun m hm => (hms m hm).ne_dismissNext,
    listening_moves h.listening fun m hm => (hms m hm).listens, unbroken_moves hr h.unbroken ms⟩

/-! ## Batches of a fetch -/

/-- A desk at which some jobs of a fetch are not acknowledged, after the attempts since another. -/
def Leaves (defaults : DispatchDefaults) (jobs left : List Job)
    (desk start : Desk (σ × List Attempt)) : Prop :=
  ∃ record, desk.remote.2 = start.remote.2 ++ record ∧ leftOver defaults jobs record = some left

structure Begun (defaults : DispatchDefaults) (jobs : List Job)
    (desk start : Desk (σ × List Attempt)) : Prop where
  steady : desk.Steady
  phase : desk.dialog.phase = .dispatching
  working : ∃ w queue, desk.Working w queue desk
  conserving : desk.Conserving defaults jobs start

/-- A desk at which a batch of a fetch has ended: the view is closed and no job is left, or it is
ready to retry those that are. -/
inductive Settled (defaults : DispatchDefaults) (jobs : List Job)
    (desk start : Desk (σ × List Attempt)) : Prop
  | completed (hp : desk.dialog.phase = .closed) (h : desk.Leaves defaults jobs [] start)
  | halted (s : Session) (failure : BatchFailure) (hp : desk.dialog.phase = .ready)
      (hs : desk.dialog.session = some s) (hr : s.pendingRetry = some failure)
      (h : desk.Leaves defaults jobs failure.retryQueue.toList start)

theorem after_remote (desk : Desk (σ × List Attempt)) (op : Operation) :
    (desk.after op).remote = desk.remote := by
  rw [after, perform, follow_eq]

theorem Steady.begun {op : Operation} {queue : JobQueue} (h : desk.Steady)
    (hr : remote.Answers) (hop : (Move.operate op).Routine) (hb : desk.Begins op queue)
    (hc : (desk.after op).Conserving defaults jobs start) :
    (desk.after op).Begun defaults jobs start := by
  have hsteady : (desk.moves remote.recording [.operate op]).Steady :=
    h.moves hr (List.forall_mem_singleton.mpr hop)
  obtain ⟨s, -, hworking⟩ := h.trailed.begin h.listening hop.own.handled
    (fun hreuses => absurd hreuses.1 (by simp [hop.opens])) hb
  refine ⟨hsteady, ?_, ⟨_, _, hworking⟩, hc⟩
  obtain ⟨token, batch, used, hstart⟩ := hb
  have ht : Transition desk.wallClock desk.dialog op (desk.dialog.perform desk.wallClock op) :=
    perform_transition h.unstuck.coherent op
  obtain ⟨-, s, -, hturn⟩ := ht.sends hstart
  rw [after_dialog, hturn]
  rfl

/-- An operation that is answered by the start of a batch begins it. -/
theorem begins_of_startBatch {op : Operation} {queue : JobQueue} {s : Session}
    (h : desk.dialog.perform desk.wallClock op = ⟨.ok (), desk.dialog.startBatch queue s⟩) :
    desk.Begins op queue := by
  refine ⟨s.token, s.batch + 1, s.defaults, ?_⟩
  simp [h, Dialog.startBatch]

/-- A fetch of at least one item begins a batch of all jobs of the fetch. -/
theorem Steady.fetch {items : List Item} {checked : List String} (h : desk.Steady)
    (hr : remote.Answers) (hoffers : desk.dialog.Offers items)
    (hchecked : JobQueue.selected items checked ≠ []) :
    (desk.perform (.fetch checked)).1 = .ok () ∧ ∃ s, desk.dialog.session = some s ∧
      (desk.after (.fetch checked)).Begun s.defaults
        ((JobQueue.selected items checked).map Job.ofItem) desk := by
  obtain ⟨hp, s, hs, hi⟩ := hoffers
  have hloaded : s.loadedItems = items := by rw [Session.loadedItems, hi, Option.getD_some]
  have hsome : JobQueue.ofSelection? s.loadedItems checked ≠ none := by
    rwa [hloaded, ne_eq, JobQueue.ofSelection_eq_none, ← JobQueue.selected_eq_nil_iff]
  obtain ⟨queue, hq⟩ := Option.ne_none_iff_exists'.mp hsome
  have hreply : desk.dialog.fetch checked =
      ⟨.ok (), desk.dialog.startBatch queue { s with pendingRetry := none }⟩ := by
    simp only [Dialog.fetch, Dialog.whenReady_of_ready hp hs, hq]
  have hok : (desk.perform (.fetch checked)).1 = .ok () := congrArg Reply.outcome hreply
  have hbegins : desk.Begins (.fetch checked) queue := begins_of_startBatch hreply
  obtain ⟨s', hs', -, hc⟩ := conserving_fetch h.orderly hok
  obtain rfl : s' = s := Option.some.inj (hs'.symm.trans hs)
  rw [hloaded] at hc
  exact ⟨hok, s', hs, h.begun hr (Move.routine_operate trivial rfl) hbegins hc⟩

/-- A retry of a batch that ended at a job begins a batch of the jobs that are left. -/
theorem Steady.retry {s : Session} {failure : BatchFailure} (h : desk.Steady)
    (hr : remote.Answers) (hc : desk.Conserving defaults jobs start)
    (hp : desk.dialog.phase = .ready) (hs : desk.dialog.session = some s)
    (hf : s.pendingRetry = some failure) :
    (desk.perform .retry).1 = .ok () ∧ (desk.after .retry).Begun defaults jobs start := by
  have hreply : desk.dialog.retry = ⟨.ok (), desk.dialog.startBatch failure.retryQueue
      { s with pendingRetry := none }⟩ := by
    simp only [Dialog.retry, Dialog.whenReady_of_ready hp hs, hf]
  have hbegins : desk.Begins .retry failure.retryQueue := begins_of_startBatch hreply
  have hconserving : (desk.after .retry).Conserving defaults jobs start := by
    refine hc.after h.orderly rfl (by decide : 1 < UInt64.size) ?_
    rintro ⟨checked, hfetch, -⟩
    cases hfetch
  exact ⟨congrArg Reply.outcome hreply, h.begun hr (Move.routine_operate trivial rfl) hbegins hconserving⟩

theorem Begun.settle (h : desk.Begun defaults jobs start) (hr : remote.Answers) :
    (desk.settle remote.recording).Steady ∧
      (desk.settle remote.recording).Conserving defaults jobs start ∧
      (desk.settle remote.recording).Settled defaults jobs start := by
  have hsteady : (desk.moves remote.recording [.settle]).Steady :=
    h.steady.moves hr (List.forall_mem_singleton.mpr Move.routine_settle)
  have hconserving : (desk.settle remote.recording).Conserving defaults jobs start := by
    refine h.conserving.move h.steady.orderly (m := .settle) trivial
      (by decide : 1 < UInt64.size) ?_
    rintro ⟨checked, hfetch, -⟩
    cases hfetch
  refine ⟨hsteady, hconserving, ?_⟩
  have hrest : (desk.settle remote.recording).dialog.phase ≠ .dispatching := by
    have hcomes : desk.ComesToRest remote.recording :=
      h.steady.unstuck.comesToRest h.steady.listening
    rcases hcomes.rest with hp | hp <;> simp [hp]
  obtain ⟨w, queue, hworking⟩ := h.working
  have hends : desk.EndsBatch remote.recording [.settle] := ⟨h.phase, id, hrest⟩
  obtain ⟨record, calls, hrecord, hcalls, hended⟩ :=
    hworking.moves (by simp [Move.Own]) (by simp) hends
  have hunbroken : Unbroken record := by
    intro a ha
    refine hsteady.unbroken a ?_
    rw [hrecord]
    exact List.mem_append_right _ ha
  have hconcluded := hended.concluded hunbroken
  obtain ⟨-, past, -, hpast, -⟩ := h.conserving
  obtain ⟨record', calls', hrecord', hcalls', hc⟩ := hconserving
  have hall : calls' = past ++ calls := by
    have hsame : start.hostCalls ++ calls' = start.hostCalls ++ (past ++ calls) := by
      rw [← hcalls', ← List.append_assoc, ← hpast]
      exact hcalls
    exact List.append_cancel_left hsame
  rcases hconcluded.outcome with hdone | hhalted
  · refine .completed hdone.closed ⟨record', hrecord', (hc.completed ?_).1⟩
    obtain ⟨early, hearly⟩ := hdone.after
    rw [hall, hearly]
    exact ⟨queue.size, by simp⟩
  · obtain ⟨s, failure, hs, hf, -⟩ := hhalted.kept
    exact .halted s failure hhalted.ready hs hf ⟨record', hrecord', (hc.retained s hs failure hf).2⟩

end Desk

end FeedDesk
