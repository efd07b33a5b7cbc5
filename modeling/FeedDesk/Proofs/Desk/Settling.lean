import FeedDesk.Proofs.Desk.WayOut

/-!
# Settling comes to an end

A task that goes on is worth more than what it leaves, and so is an event that is handled, since no
event starts work. So a desk settles in a bounded number of steps, in whatever order tasks go on
and events are handled, and as a busy view has a way out it does not end before the view is ready
or closed.
-/
namespace FeedDesk

/-- A bound on the times that some tasks go on and on the events that they report, together. -/
def weigh (tasks : List Running) : Nat := tasks.foldr (fun t n => t.activity.weight + n) 0

theorem foldr_weight (tasks : List Running) (n : Nat) :
    tasks.foldr (fun t n => t.activity.weight + n) n = weigh tasks + n := by
  induction tasks with
  | nil => exact (Nat.zero_add n).symm
  | cons t tasks ih =>
    rw [weigh, List.foldr_cons, List.foldr_cons, ih, weigh, Nat.add_assoc]

theorem weigh_append (a b : List Running) : weigh (a ++ b) = weigh a + weigh b := by
  rw [weigh, List.foldr_append, foldr_weight]
  rfl

theorem weigh_eraseIdx {tasks : List Running} {index : Nat} {task : Running}
    (h : tasks[index]? = some task) :
    weigh (tasks.eraseIdx index) + task.activity.weight = weigh tasks := by
  have hperm := (perm_eraseIdx h).foldr_eq' (f := fun t n => t.activity.weight + n)
    (fun _ _ _ _ n => Nat.add_left_comm _ _ n) 0
  rw [Nat.add_comm]
  exact hperm

/-! ## What a task leaves -/

def Burst.weight {σ : Type} (burst : Burst σ) : Nat :=
  weigh burst.next.toList + burst.events.length

section
variable {σ : Type} {remote : Remote σ} {now : Nat}

namespace BatchWork

variable {w : BatchWork} {unheard : List BatchProgress} {done : List Job} {job : Job}
  {rest : List Job} {s : σ}

theorem length_progressEvents (w : BatchWork) (unheard : List BatchProgress) :
    (w.progressEvents unheard).length = unheard.length :=
  List.length_map _

theorem send_weight
    (h : ∀ outcome s, (w.goOn remote now unheard done job outcome rest s).weight ≤
      unheard.length + 2 * rest.length + 2) :
    (w.send remote now unheard done job rest s).weight ≤ unheard.length + 2 * rest.length + 3 := by
  unfold send
  dsimp only
  split
  · exact Nat.le_succ_of_le (h _ _)
  · simp only [Burst.weight, weigh, Option.toList_some, List.foldr_cons, List.foldr_nil,
      Activity.weight, length_progressEvents]
    omega

theorem goOn_weight (w : BatchWork) (unheard : List BatchProgress) (done : List Job) (job : Job)
    (outcome : CallOutcome Bool) (rest : List Job) (s : σ) :
    (w.goOn remote now unheard done job outcome rest s).weight ≤
      unheard.length + 2 * rest.length + 2 := by
  refine w.goOn_induction (P := fun unheard _ _ _ rest _ burst =>
      burst.weight ≤ unheard.length + 2 * rest.length + 2)
    ?breaks ?refused ?last ?more unheard done job outcome rest s
  case breaks =>
    intros
    simp only [Burst.weight, weigh, Option.toList_none, List.foldr_nil, List.length_singleton]
    omega
  case refused | last =>
    intros
    simp only [Burst.weight, weigh, Option.toList_none, List.foldr_nil, List.length_append,
      length_progressEvents, List.length_singleton, List.length_nil]
    omega
  case more =>
    intro unheard done job answer next rest s _ ih
    refine Nat.le_trans (send_weight fun outcome s => ih _ _ outcome s) ?_
    simp only [List.length_append, List.length_cons, List.length_nil]
    omega

end BatchWork

/-- A task that goes on leaves less than itself. -/
theorem Activity.resume_weight (a : Activity) (s : σ) :
    (a.resume remote now s).weight < a.weight := by
  cases a with
  | unstarted task =>
    cases task with
    | load | timer => simp [resume, Task.start, Burst.weight, weigh, weight]
    | dispatch token batch defaults queue =>
      let w : BatchWork := ⟨token, batch, defaults, queue.size⟩
      have hsend : (w.send remote now [] [] queue.head queue.rest s).weight ≤
          0 + 2 * queue.rest.length + 3 :=
        BatchWork.send_weight fun outcome s => w.goOn_weight [] [] _ outcome _ s
      rw [resume, start_dispatch, weight]
      exact Nat.lt_of_le_of_lt hsend (by omega)
  | loading | waiting => simp [resume, Burst.weight, weigh, weight]
  | appending w done job outcome rest =>
    have hgo : (w.goOn remote now [] done job outcome rest s).weight ≤ 0 + 2 * rest.length + 2 :=
      w.goOn_weight [] done job outcome rest s
    rw [resume, weight]
    omega

end

/-! ## What an event leaves -/

theorem Transition.not_started {now : Int64} {d : Dialog} {op : Operation} {r : Reply}
    (h : Transition now d op r) (hop : op.handled ≠ []) (task : Task) :
    .start task ∉ r.turn.effects := by
  cases h with
  | refused _ hne => exact absurd hne.handled hop
  | opened | reopened | unopened | cancelled | filtered | renamed | unchecked | fetched | unfailed
  | retried => exact absurd rfl hop
  | unheeded | progressed | timeElapsed => simp [Turn.idle]
  | loadFailed | completed | halted | brokenOff =>
    simp [not_started_closing, not_started_signOff]
  | loaded => simp [Dialog.tableEffects]

/-- Without new work the tasks stay or are abandoned. -/
theorem weigh_foldl_tasksAfter {effects : List Effect} (h : ∀ task, .start task ∉ effects)
    (time : Nat) (tasks : List Running) :
    weigh (effects.foldl (tasksAfter time) tasks) ≤ weigh tasks := by
  induction effects generalizing tasks with
  | nil => exact Nat.le_refl _
  | cons effect effects ih =>
    have hrest : ∀ task, .start task ∉ effects := fun task hmem => h task (.tail _ hmem)
    refine Nat.le_trans (ih hrest _) ?_
    cases effect with
    | host call => exact Nat.le_refl _
    | start task => exact absurd List.mem_cons_self (h task)
    | abandonTasks => exact Nat.zero_le _

namespace Desk

variable {σ : Type} {remote : Remote σ} {desk : Desk σ}

theorem workload_eq (desk : Desk σ) : desk.workload = weigh desk.tasks + desk.queue.length :=
  foldr_weight desk.tasks desk.queue.length

theorem handleNext_workload (hc : desk.dialog.Coherent) (hq : desk.queue ≠ []) :
    desk.handleNext.workload < desk.workload := by
  rcases handleNext_transition hc with ⟨hnil, -⟩ | ⟨event, rest, r, hcons, ht, heq⟩
  · exact absurd hnil hq
  · have hweigh := weigh_foldl_tasksAfter (ht.not_started (by simp [Operation.handled])) desk.time
      desk.tasks
    rw [heq, workload_eq, workload_eq, hcons, List.length_cons]
    dsimp only
    omega

theorem goOn_workload (remote : Remote σ) {index : Nat} (h : index < desk.tasks.length) :
    (desk.goOn remote index).workload < desk.workload := by
  rcases goOn_resume remote desk index with ⟨hnone, -⟩ | ⟨task, time, hget, heq⟩
  · rw [List.getElem?_eq_none_iff] at hnone
    omega
  · have hburst : (task.activity.resume remote time desk.remote).weight < task.activity.weight :=
      task.activity.resume_weight desk.remote
    have herase := weigh_eraseIdx hget
    rw [Burst.weight] at hburst
    rw [heq]
    simp only [workload_eq, absorb, weigh_append]
    split
    · rw [List.length_append]
      omega
    · omega

/-! ## Settling in any order -/

/-- A desk comes to another in a number of steps of settling. As long as its view is busy, the first
of the waiting events is handled or any of the tasks goes on, whichever comes first. -/
inductive SettlesIn (remote : Remote σ) : Nat → Desk σ → Desk σ → Prop
  | here (desk : Desk σ) : SettlesIn remote 0 desk desk
  | handleNext {n : Nat} {desk later : Desk σ} (hbusy : desk.dialog.isBusy = true)
      (hq : desk.queue ≠ []) (h : SettlesIn remote n desk.handleNext later) :
    SettlesIn remote (n + 1) desk later
  | goOn {n : Nat} {desk later : Desk σ} (index : Nat) (hbusy : desk.dialog.isBusy = true)
      (hi : index < desk.tasks.length) (h : SettlesIn remote n (desk.goOn remote index) later) :
    SettlesIn remote (n + 1) desk later

/-- A desk whose view has its way out, so that it settles whatever the order of events and tasks:
the steps are bounded, and as long as the view is neither ready nor closed there is another one.
Settling as it is done is such a sequence of steps, no bound on them cuts it short, and in the end
the view is ready or closed. -/
structure ComesToRest (remote : Remote σ) (desk : Desk σ) : Prop where
  wayOut : desk.dialog.WayOut desk.tasks desk.queue
  bounded : ∀ n later, SettlesIn remote n desk later → n ≤ desk.workload
  onward : ∀ n later, SettlesIn remote n desk later →
    later.dialog.phase = .ready ∨ later.dialog.phase = .closed ∨
      ∃ next, SettlesIn remote 1 later next
  settles : ∃ n, SettlesIn remote n desk (desk.settle remote)
  uncut : ∀ fuel, desk.workload ≤ fuel → settleWithin remote fuel desk = desk.settle remote
  rest : (desk.settle remote).dialog.phase = .ready ∨ (desk.settle remote).dialog.phase = .closed

theorem handleNext_listening (desk : Desk σ) : desk.handleNext.listening = desk.listening := by
  cases hq : desk.queue with
  | nil => simp only [handleNext, hq]
  | cons event rest =>
    simp only [handleNext, hq]
    rw [after, perform, follow_eq]

theorem goOn_listening (desk : Desk σ) (index : Nat) :
    (desk.goOn remote index).listening = desk.listening := by
  rcases goOn_resume remote desk index with ⟨-, heq⟩ | ⟨task, time, -, heq⟩ <;> rw [heq]
  rfl

theorem SettlesIn.unstuck {n : Nat} {later : Desk σ} (h : SettlesIn remote n desk later)
    (hu : desk.Unstuck) : later.Unstuck := by
  induction h with
  | here => exact hu
  | handleNext _ _ _ ih => exact ih hu.handleNext
  | goOn index _ _ _ ih => exact ih (hu.goOn index)

theorem SettlesIn.listening {n : Nat} {later : Desk σ} (h : SettlesIn remote n desk later) :
    later.listening = desk.listening := by
  induction h with
  | here => rfl
  | handleNext _ _ _ ih => rw [ih, handleNext_listening]
  | goOn index _ _ _ ih => rw [ih, goOn_listening]

/-- Every step of settling takes from the workload. -/
theorem SettlesIn.add_workload_le {n : Nat} {later : Desk σ} (h : SettlesIn remote n desk later)
    (hu : desk.Unstuck) : n + later.workload ≤ desk.workload := by
  induction h with
  | here desk => exact Nat.le_of_eq (Nat.zero_add _)
  | handleNext _ hq _ ih =>
    have hrest := ih hu.handleNext
    have hless := handleNext_workload hu.coherent hq
    omega
  | goOn index _ hi _ ih =>
    have hrest := ih (hu.goOn index)
    have hless := goOn_workload remote hi
    omega

theorem phase_of_not_busy (h : desk.dialog.isBusy ≠ true) :
    desk.dialog.phase = .ready ∨ desk.dialog.phase = .closed := by
  cases hp : desk.dialog.phase <;> simp [Dialog.isBusy, hp] at h ⊢

/-- A busy view that somebody listens for settles on. -/
theorem Unstuck.exists_step (remote : Remote σ) (hu : desk.Unstuck) (hl : desk.listening = true)
    (hbusy : desk.dialog.isBusy = true) : ∃ next, SettlesIn remote 1 desk next := by
  rcases hu.goes_on hl hbusy with hq | ht
  · exact ⟨_, .handleNext hbusy hq (.here _)⟩
  · exact ⟨_, .goOn 0 hbusy (List.length_pos_of_ne_nil ht) (.here _)⟩

theorem takeEarliest_eq_none {tasks : List Running} (h : takeEarliest tasks = none) :
    tasks = [] := by
  cases tasks with
  | nil => rfl
  | cons task rest =>
    rw [takeEarliest] at h
    split at h
    · cases h
    · split at h <;> cases h

/-- With enough steps allowed, settling ends because the view is not busy any more. -/
theorem Unstuck.settleWithin (remote : Remote σ) {fuel : Nat} (hu : desk.Unstuck)
    (hl : desk.listening = true) (hfuel : desk.workload ≤ fuel) :
    (∃ n, SettlesIn remote n desk (settleWithin remote fuel desk)) ∧
      (Desk.settleWithin remote fuel desk).dialog.isBusy ≠ true := by
  induction fuel generalizing desk with
  | zero =>
    refine ⟨⟨0, .here desk⟩, fun hbusy => ?_⟩
    obtain ⟨next, hnext⟩ := hu.exists_step remote hl hbusy
    have hsteps := hnext.add_workload_le hu
    omega
  | succ fuel ih =>
    rw [Desk.settleWithin]
    split
    next hidle => exact ⟨⟨0, .here desk⟩, by simpa using hidle⟩
    next hbusy =>
      replace hbusy : desk.dialog.isBusy = true := by simpa using hbusy
      split
      next hqueue =>
        have hq : desk.queue ≠ [] := by simpa using hqueue
        have hless := handleNext_workload hu.coherent hq
        obtain ⟨⟨n, hn⟩, hrest⟩ := ih hu.handleNext ((handleNext_listening desk).trans hl)
          (by omega)
        exact ⟨⟨n + 1, .handleNext hbusy hq hn⟩, hrest⟩
      next hqueue =>
        rw [hl, if_neg (by simp)]
        split
        next hnone =>
          have hq : desk.queue = [] := by simpa using hqueue
          have honward := hu.goes_on hl hbusy
          simp [hq, takeEarliest_eq_none hnone] at honward
        next task others htake =>
          obtain ⟨index, hget, rfl⟩ := takeEarliest_eq htake
          obtain ⟨hi, -⟩ := List.getElem?_eq_some_iff.mp hget
          have hless := goOn_workload remote hi
          have hgo : desk.goOn remote index =
              desk.resume remote task (desk.tasks.eraseIdx index) := by simp only [Desk.goOn, hget]
          rw [← hgo]
          obtain ⟨⟨n, hn⟩, hrest⟩ := ih (hu.goOn index) ((goOn_listening desk index).trans hl)
            (Nat.le_of_lt_succ (Nat.lt_of_lt_of_le hless hfuel))
          exact ⟨⟨n + 1, .goOn index hbusy hi hn⟩, hrest⟩

/-- Settling that has ended is not changed by more steps. -/
theorem settleWithin_of_le {fuel more : Nat} (h : fuel ≤ more)
    (hrest : (settleWithin remote fuel desk).dialog.isBusy ≠ true) :
    settleWithin remote more desk = settleWithin remote fuel desk := by
  induction fuel generalizing desk more with
  | zero =>
    have hidle : desk.dialog.isBusy = false := eq_false_of_ne_true hrest
    cases more with
    | zero => rfl
    | succ more => simp only [settleWithin, hidle, Bool.not_false, if_true]
  | succ fuel ih =>
    obtain ⟨more, rfl⟩ : ∃ k, more = k + 1 := Nat.exists_eq_add_one.mpr (by omega)
    replace h : fuel ≤ more := Nat.le_of_succ_le_succ h
    simp only [settleWithin] at hrest ⊢
    split_ifs at hrest ⊢ with hidle hqueue hdeaf
    · rfl
    · exact ih h hrest
    · rfl
    · cases htake : takeEarliest desk.tasks with
      | none => rfl
      | some earliest =>
        rw [htake] at hrest
        exact ih h hrest

theorem Unstuck.comesToRest (hu : desk.Unstuck) (hl : desk.listening = true) :
    desk.ComesToRest remote := by
  obtain ⟨hsettles, hrest⟩ := hu.settleWithin remote hl (Nat.le_refl _)
  refine ⟨hu.wayOut hl, ?_, ?_, hsettles, fun fuel h => settleWithin_of_le h hrest,
    phase_of_not_busy hrest⟩
  · intro n later h
    have hsteps := h.add_workload_le hu
    omega
  · intro n later h
    by_cases hbusy : later.dialog.isBusy = true
    · exact .inr (.inr ((h.unstuck hu).exists_step remote (h.listening.trans hl) hbusy))
    · exact (phase_of_not_busy hbusy).imp_right .inl

/-- After any run of a desk, with events of any kind delivered to its view at any time, as long as
somebody listens and no event that waits was thrown away, a busy view has its way out, and settling
comes to an end with the view ready or closed. -/
theorem settles_from_anywhere (remote : Remote σ) (settings : DialogSettings) (wallClock : Int64)
    (s : σ) (ms : List Move) (hkept : ∀ m ∈ ms, m ≠ .dismissNext)
    (hl : ((create settings wallClock s).moves remote ms).listening = true) :
    ((create settings wallClock s).moves remote ms).ComesToRest remote :=
  ((unstuck_create settings wallClock s).moves hkept).comesToRest hl

/-- A run in which the news that a batch broke off is made up, and another batch is sent while the
first is still under way. -/
def beliedRun : List Move :=
  [.operate (.openOn default), .settle, .operate (.fetch ["a"]), .goOn 1,
    .operate (.deliver ⟨.nth 1, .panicked .dispatch "gone"⟩), .operate (.fetch ["a"])]

theorem belied_batch_settles :
    ((create ⟨25, 300, 0⟩ 0 true).moves (.wavering [{ url := "a" }]) beliedRun).dialog.phase =
        .dispatching ∧
      ((create ⟨25, 300, 0⟩ 0 true).moves (.wavering [{ url := "a" }]) beliedRun).ComesToRest
        (.wavering [{ url := "a" }]) :=
  ⟨rfl, settles_from_anywhere (.wavering [{ url := "a" }]) ⟨25, 300, 0⟩ 0 true beliedRun
    (by simp [beliedRun]) rfl⟩

end Desk

end FeedDesk
