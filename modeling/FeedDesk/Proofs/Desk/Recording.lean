import FeedDesk.Proofs.Desk.Bursts
import FeedDesk.Proofs.Desk.Moves

/-!
# Servers with a record

An attempt is a call for an item to be queued, together with how it ends. A server can keep a
record of the attempts at it. The record makes no difference to a desk: without it, every run at the
recording server is the run at the server itself.
-/
namespace FeedDesk

/-- A call for an item to be queued, and its end. -/
abbrev Attempt := AppendRequest × CallOutcome Bool

/-- A server with a record of the attempts at it. How a call ends is recorded when it is made. -/
def Remote.recording {σ : Type} (remote : Remote σ) : Remote (σ × List Attempt) where
  load call s := ((remote.load call s.1).1, (remote.load call s.1).2, s.2)
  append request s :=
    ((remote.append request s.1).1, (remote.append request s.1).2,
      s.2 ++ [(request, (remote.append request s.1).1.outcome)])

section
variable {σ : Type} {remote : Remote σ} {now : Nat}

def Burst.forget (burst : Burst (σ × List Attempt)) : Burst σ :=
  ⟨burst.calls, burst.events, burst.next, burst.remote.1⟩

def Desk.forget (desk : Desk (σ × List Attempt)) : Desk σ where
  dialog := desk.dialog
  wallClock := desk.wallClock
  remote := desk.remote.1
  time := desk.time
  screen := desk.screen
  tasks := desk.tasks
  queue := desk.queue
  listening := desk.listening
  hostCalls := desk.hostCalls
  remoteCalls := desk.remoteCalls

namespace BatchWork

variable {w : BatchWork} {unheard : List BatchProgress} {done : List Job} {job : Job}
  {rest : List Job} {s : σ × List Attempt}

theorem send_forget
    (h : ∀ outcome (s : σ × List Attempt),
      (w.goOn remote.recording now unheard done job outcome rest s).forget =
        w.goOn remote now unheard done job outcome rest s.1) :
    (w.send remote.recording now unheard done job rest s).forget =
      w.send remote now unheard done job rest s.1 := by
  have hplanned : (remote.recording.append (job.request w.defaults) s).1 =
      (remote.append (job.request w.defaults) s.1).1 := rfl
  have hburst := h (remote.append (job.request w.defaults) s.1).1.outcome
    (remote.recording.append (job.request w.defaults) s).2
  unfold send
  dsimp only
  rw [hplanned]
  by_cases hdelay : (remote.append (job.request w.defaults) s.1).1.delay = 0
  · rw [if_pos hdelay, if_pos hdelay]
    exact congrArg (fun burst : Burst σ =>
      { burst with calls := .appendUrl (job.request w.defaults) :: burst.calls }) hburst
  · rw [if_neg hdelay, if_neg hdelay]
    rfl

theorem goOn_forget (w : BatchWork) (unheard : List BatchProgress) (done : List Job) (job : Job)
    (outcome : CallOutcome Bool) (rest : List Job) (s : σ × List Attempt) :
    (w.goOn remote.recording now unheard done job outcome rest s).forget =
      w.goOn remote now unheard done job outcome rest s.1 := by
  refine w.goOn_induction (P := fun unheard done job outcome rest (s : σ × List Attempt) burst =>
      burst.forget = w.goOn remote now unheard done job outcome rest s.1)
    ?breaks ?refused ?last ?more unheard done job outcome rest s
  case breaks =>
    intro _ _ _ text _ _
    rw [goOn_breaks]
    rfl
  case refused =>
    intro _ _ _ answer error _ _ h
    rw [goOn_refused h]
    rfl
  case last =>
    intro _ _ _ answer _ h
    rw [goOn_last h]
    rfl
  case more =>
    intro _ _ _ answer next _ _ h ih
    rw [goOn_more h]
    exact send_forget fun outcome s => ih _ _ outcome s

end BatchWork

theorem Activity.resume_forget (a : Activity) (s : σ × List Attempt) :
    (a.resume remote.recording now s).forget = a.resume remote now s.1 := by
  cases a with
  | unstarted task =>
    cases task with
    | load | timer => rfl
    | dispatch token batch defaults queue =>
      rw [resume, resume, start_dispatch, start_dispatch]
      exact BatchWork.send_forget fun outcome s => BatchWork.goOn_forget ..
  | loading | waiting => rfl
  | appending w done job outcome rest => exact w.goOn_forget [] done job outcome rest s

namespace Desk

theorem forget_after (desk : Desk (σ × List Attempt)) (op : Operation) :
    (desk.after op).forget = desk.forget.after op := by
  rw [after, after, perform, perform, follow_eq, follow_eq]
  rfl

theorem forget_handleNext (desk : Desk (σ × List Attempt)) :
    desk.handleNext.forget = desk.forget.handleNext := by
  unfold handleNext
  have hq : desk.forget.queue = desk.queue := rfl
  rw [hq]
  split
  · rfl
  · rw [forget_after]
    rfl

theorem forget_resume (desk : Desk (σ × List Attempt)) (task : Running) (others : List Running) :
    (desk.resume remote.recording task others).forget = desk.forget.resume remote task others := by
  have hburst : (task.activity.resume remote.recording (max desk.time task.due)
      desk.remote).forget = task.activity.resume remote (max desk.time task.due) desk.remote.1 :=
    task.activity.resume_forget desk.remote
  exact congrArg (fun burst : Burst σ => ({ desk.forget with
    time := max desk.time task.due, tasks := others } : Desk σ).absorb burst) hburst

theorem forget_goOn (desk : Desk (σ × List Attempt)) (index : Nat) :
    (desk.goOn remote.recording index).forget = desk.forget.goOn remote index := by
  unfold goOn
  have htasks : desk.forget.tasks = desk.tasks := rfl
  rw [htasks]
  split
  · rfl
  · exact forget_resume ..

theorem forget_settleWithin (fuel : Nat) (desk : Desk (σ × List Attempt)) :
    (desk.settleWithin remote.recording fuel).forget = desk.forget.settleWithin remote fuel := by
  induction fuel generalizing desk with
  | zero => rfl
  | succ fuel ih =>
    have hdialog : desk.forget.dialog = desk.dialog := rfl
    have hqueue : desk.forget.queue = desk.queue := rfl
    have hlistening : desk.forget.listening = desk.listening := rfl
    have htasks : desk.forget.tasks = desk.tasks := rfl
    rw [settleWithin, settleWithin, hdialog, hqueue, hlistening, htasks]
    split
    · rfl
    · split
      · rw [ih, forget_handleNext]
      · split
        · rfl
        · split
          · rfl
          · rw [ih, forget_resume]

/-- Every run at a server with a record is, without the record, the run at the server. -/
theorem forget_moves (remote : Remote σ) (desk : Desk (σ × List Attempt)) (ms : List Move) :
    (desk.moves remote.recording ms).forget = desk.forget.moves remote ms := by
  induction ms generalizing desk with
  | nil => rfl
  | cons m ms ih =>
    have hmove : (desk.move remote.recording m).forget = desk.forget.move remote m := by
      cases m with
      | operate op => exact forget_after desk op
      | handleNext => exact forget_handleNext desk
      | goOn index => exact forget_goOn desk index
      | settle => exact forget_settleWithin desk.workload desk
      | dismissNext | pass | stopListening => rfl
    change ((desk.move remote.recording m).moves remote.recording ms).forget = _
    rw [ih, hmove]
    rfl

end Desk

end

end FeedDesk
