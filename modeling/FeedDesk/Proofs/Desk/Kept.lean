import FeedDesk.Proofs.Desk.Exclusive

/-!
# What a desk by itself keeps

At a desk by itself the view changes by its own steps and by what its tasks do, and by nothing
else. So a property that neither of them breaks, and that is not broken when events are taken from
the queue, holds after every move.
-/
namespace FeedDesk

variable {G : Dialog → List Running → List Event → Reply → Prop}
  {P : Dialog → List HostCall → List Running → List Event → Prop}

/-- A property of a view, the calls to the host, the tasks under way and the events that wait, that
steps of the view and its tasks keep. The work of the view is kept apart, no session is opened that
an event already waits for, and `G` says which steps of operations are meant. -/
structure Kept (G : Dialog → List Running → List Event → Reply → Prop)
    (P : Dialog → List HostCall → List Running → List Event → Prop) : Prop where
  step : ∀ {now d op r calls tasks queue}, Transition now d op r →
    d.Exclusive tasks (op.handled ++ queue) → P d calls tasks (op.handled ++ queue) →
    (0 < op.openings → ∀ e ∈ queue, e.token ≠ d.lastToken.next) →
    (op.handled = [] → G d tasks queue r) → ∀ time,
    P r.turn.dialog (calls ++ hostCallsOf r.turn.effects)
      (r.turn.effects.foldl (tasksAfter time) tasks) queue
  absorb : ∀ {σ : Type} {d calls tasks queue index task} (remote : Remote σ) (now : Nat) (state : σ),
    d.Exclusive tasks queue → P d calls tasks queue → tasks[index]? = some task →
    P d calls (tasks.eraseIdx index ++ (task.activity.resume remote now state).next.toList)
      (queue ++ (task.activity.resume remote now state).events)
  dequeue : ∀ {d calls tasks queue more}, P d calls tasks more → queue.Sublist more →
    P d calls tasks queue

namespace Desk

variable {σ : Type} {remote : Remote σ} {desk : Desk σ}

structure Has (P : Dialog → List HostCall → List Running → List Event → Prop) (desk : Desk σ) :
    Prop where
  exclusive : desk.Exclusive
  holds : P desk.dialog desk.hostCalls desk.tasks desk.queue

theorem Has.after {op : Operation} (h : desk.Has P) (hk : Kept G P) (hop : op.handled = [])
    (hfresh : ¬ desk.Reuses (.operate op))
    (hg : G desk.dialog desk.tasks desk.queue (desk.dialog.perform desk.wallClock op)) :
    (desk.after op).Has P := by
  refine ⟨h.exclusive.after hop hfresh, ?_⟩
  have ht : Transition desk.wallClock desk.dialog op (desk.dialog.perform desk.wallClock op) :=
    perform_transition h.exclusive.consistent.coherent op
  rw [Desk.after, perform, follow_eq]
  refine hk.step ht ?_ ?_ (fun ho e he htoken => hfresh ⟨ho, e, he, htoken⟩) (fun _ => hg) _
  · rw [hop]
    exact h.exclusive
  · rw [hop]
    exact h.holds

theorem Has.handleNext (h : desk.Has P) (hk : Kept G P) : desk.handleNext.Has P := by
  refine ⟨h.exclusive.handleNext, ?_⟩
  rcases handleNext_transition h.exclusive.consistent.coherent with
    ⟨-, heq⟩ | ⟨event, rest, r, hq, ht, heq⟩
  · rw [heq]
    exact h.holds
  · obtain ⟨hx, hholds⟩ := h
    rw [Desk.Exclusive, hq] at hx
    rw [hq] at hholds
    rw [heq]
    exact hk.step ht hx hholds (fun ho => absurd ho (Nat.lt_irrefl 0)) (fun ho => by cases ho) _

theorem Has.goOn (h : desk.Has P) (hk : Kept G P) (index : Nat) :
    (desk.goOn remote index).Has P := by
  refine ⟨h.exclusive.goOn index, ?_⟩
  rcases goOn_resume remote desk index with ⟨-, heq⟩ | ⟨task, time, hget, heq⟩
  · rw [heq]
    exact h.holds
  · have hp := hk.absorb remote time desk.remote h.exclusive h.holds hget
    rw [heq]
    simp only [absorb]
    split
    · exact hp
    · exact hk.dequeue hp (List.sublist_append_left _ _)

theorem Has.move {m : Move} (h : desk.Has P) (hk : Kept G P) (hown : m.Own)
    (hfresh : ¬ desk.Reuses m)
    (hg : ∀ op, m = .operate op →
      G desk.dialog desk.tasks desk.queue (desk.dialog.perform desk.wallClock op)) :
    (desk.move remote m).Has P := by
  cases m with
  | operate op => exact h.after hk hown.handled hfresh (hg op rfl)
  | handleNext => exact h.handleNext hk
  | dismissNext => exact hown.elim
  | goOn index => exact h.goOn hk index
  | settle => exact settle_induction (fun _ h => h.handleNext hk) (fun _ i h => h.goOn hk i) h
  | pass | stopListening => exact ⟨h.exclusive, h.holds⟩

end Desk

end FeedDesk
