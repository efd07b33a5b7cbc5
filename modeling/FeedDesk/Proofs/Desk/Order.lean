import FeedDesk.Proofs.Desk.Exclusive

/-!
# Openings of a desk

A view that is opened fewer than `2 ^ 64` times never gives a token to two sessions, and what its
tasks report carries one of the tokens given so far. So its work is kept apart, and nothing that it
has abandoned can be mistaken for work of a later session.
-/
namespace FeedDesk

/-- A view opened a number of times, its tasks under way and the events that wait, if all of
these are its own. -/
structure Dialog.Orderly (opened : Nat) (d : Dialog) (tasks : List Running)
    (queue : List Event) : Prop where
  consistent : d.Consistent
  stamped : d.Stamped opened
  abandoned : d.phase = .closed → tasks = []
  owned : ∀ s, d.session = some s → ∀ t ∈ tasks, t.activity.token = s.token
  known : ∀ e ∈ queue, ∃ n ≤ opened, e.token = .nth n
  single : ∀ s, d.session = some s → ∀ kind, kind = .load ∨ kind = .dispatch →
    pending s.token kind tasks queue ≤ if d.phase.work? = some kind then 1 else 0

namespace Dialog.Orderly

variable {opened : Nat} {d : Dialog} {tasks : List Running} {queue : List Event}

theorem exclusive (ho : d.Orderly opened tasks queue) : d.Exclusive tasks queue :=
  ⟨ho.consistent, ho.abandoned, ho.owned, ho.single⟩

theorem of_exclusive (hx : d.Exclusive tasks queue) (hs : d.Stamped opened)
    (hk : ∀ e ∈ queue, ∃ n ≤ opened, e.token = .nth n) : d.Orderly opened tasks queue :=
  ⟨hx.consistent, hs, hx.abandoned, hx.owned, hk, hx.single⟩

theorem dequeue {more : List Event} (ho : d.Orderly opened tasks more) (hq : queue.Sublist more) :
    d.Orderly opened tasks queue :=
  .of_exclusive (ho.exclusive.dequeue hq) ho.stamped fun e he => ho.known e (hq.subset he)

/-- No event that waits is for the session that is opened next. -/
theorem unheard (ho : d.Orderly opened tasks queue) (hfew : opened + 1 < UInt64.size) :
    ∀ e ∈ queue, e.token ≠ d.lastToken.next := by
  intro e he htoken
  obtain ⟨n, hn, hnth⟩ := ho.known e he
  rw [hnth, ho.stamped.last, SessionToken.next_nth] at htoken
  have := SessionToken.nth_injective (by omega) hfew htoken
  omega

theorem absorb {σ : Type} {burst : Burst σ} {index : Nat} {task : Running}
    (ho : d.Orderly opened tasks queue) (hget : tasks[index]? = some task)
    (hw : burst.Works task.activity.token task.activity.kind) :
    d.Orderly opened (tasks.eraseIdx index ++ burst.next.toList) (queue ++ burst.events) := by
  refine .of_exclusive (ho.exclusive.absorb hget hw) ho.stamped fun e he => ?_
  rcases List.mem_append.mp he with he | he
  · exact ho.known e he
  · obtain ⟨s, hs, htoken⟩ := ho.exclusive.exists_session (List.mem_of_getElem? hget)
    refine ⟨opened, Nat.le_refl _, ?_⟩
    rw [hw.event_token e he, htoken, (ho.stamped.session s hs).1]

end Dialog.Orderly

theorem Transition.orderly {now : Int64} {opened : Nat} {d : Dialog} {tasks : List Running}
    {queue : List Event} {op : Operation} {r : Reply} (h : Transition now d op r)
    (ho : d.Orderly opened tasks (op.handled ++ queue)) (hfew : opened + op.openings < UInt64.size)
    (time : Nat) :
    r.turn.dialog.Orderly (opened + op.openings)
      (r.turn.effects.foldl (tasksAfter time) tasks) queue := by
  have hd : d.Orderly opened tasks queue := ho.dequeue (List.sublist_append_right _ _)
  have hx : r.turn.dialog.Exclusive (r.turn.effects.foldl (tasksAfter time) tasks) queue :=
    h.exclusive ho.exclusive (fun hop => hd.unheard (by omega)) time
  refine .of_exclusive hx (h.stamped ho.stamped) fun e he => ?_
  obtain ⟨n, hn, hnth⟩ := hd.known e he
  exact ⟨n, by omega, hnth⟩

/-! ## Desks -/

namespace Desk

variable {σ : Type} {remote : Remote σ} {opened : Nat} {desk : Desk σ}

/-- A desk, opened a number of times, whose work under way is in order. -/
def Orderly (opened : Nat) (desk : Desk σ) : Prop :=
  desk.dialog.Orderly opened desk.tasks desk.queue

theorem orderly_create (settings : DialogSettings) (wallClock : Int64) (s : σ) :
    (create settings wallClock s).Orderly 0 :=
  .of_exclusive (exclusive_create settings wallClock s) (Dialog.stamped_create settings)
    (by simp [create])

theorem Orderly.after {op : Operation} (h : desk.Orderly opened) (hop : op.handled = [])
    (hfew : opened + op.openings < UInt64.size) :
    (desk.after op).Orderly (opened + op.openings) := by
  obtain ⟨r, ht, -, heq⟩ := after_transition h.consistent.coherent op
  have ho : desk.dialog.Orderly opened desk.tasks (op.handled ++ desk.queue) := by
    rw [hop]
    exact h
  rw [heq]
  exact ht.orderly ho hfew desk.time

theorem Orderly.handleNext (h : desk.Orderly opened) (hfew : opened < UInt64.size) :
    desk.handleNext.Orderly opened := by
  rcases handleNext_transition h.consistent.coherent with
    ⟨-, heq⟩ | ⟨event, rest, r, hq, ht, heq⟩
  · rw [heq]
    exact h
  · rw [Orderly, hq] at h
    rw [heq]
    exact ht.orderly h hfew desk.time

theorem Orderly.goOn (h : desk.Orderly opened) (index : Nat) :
    (desk.goOn remote index).Orderly opened := by
  rcases goOn_resume remote desk index with ⟨-, heq⟩ | ⟨task, time, hget, heq⟩
  · rw [heq]
    exact h
  · have hw : (task.activity.resume remote time desk.remote).Works task.activity.token
        task.activity.kind := task.activity.resume_works desk.remote
    have ho := Dialog.Orderly.absorb h hget hw
    rw [heq]
    simp only [Orderly, absorb]
    split
    · exact ho
    · exact ho.dequeue (List.sublist_append_left _ _)

theorem Orderly.move {m : Move} (h : desk.Orderly opened) (hown : m.Own)
    (hfew : opened + m.openings < UInt64.size) :
    (desk.move remote m).Orderly (opened + m.openings) := by
  cases m with
  | operate op => exact h.after hown.handled hfew
  | handleNext => exact h.handleNext hfew
  | dismissNext => exact hown.elim
  | goOn index => exact h.goOn index
  | settle => exact settle_induction (fun _ h => h.handleNext hfew) (fun _ i h => h.goOn i) h
  | pass | stopListening => exact h

theorem Orderly.moves {ms : List Move} (h : desk.Orderly opened) (hown : ∀ m ∈ ms, m.Own)
    (hfew : opened + openingsOf ms < UInt64.size) :
    (desk.moves remote ms).Orderly (opened + openingsOf ms) := by
  induction ms generalizing desk opened with
  | nil => exact h
  | cons m ms ih =>
    obtain ⟨hm, hms⟩ := List.forall_mem_cons.mp hown
    rw [openingsOf_cons, ← Nat.add_assoc] at hfew ⊢
    exact ih (h.move hm (by omega)) hms hfew

/-- A run that opens fewer than `2 ^ 64` sessions opens none that an event already waits for. -/
theorem Orderly.fresh {ms : List Move} (h : desk.Orderly opened) (hown : ∀ m ∈ ms, m.Own)
    (hfew : opened + openingsOf ms < UInt64.size) : desk.Fresh remote ms := by
  induction ms generalizing desk opened with
  | nil => trivial
  | cons m ms ih =>
    obtain ⟨hm, hms⟩ := List.forall_mem_cons.mp hown
    rw [openingsOf_cons, ← Nat.add_assoc] at hfew
    refine ⟨?_, ih (h.move hm (by omega)) hms hfew⟩
    rintro ⟨hopens, e, he, htoken⟩
    exact Dialog.Orderly.unheard h (by omega) e he htoken

end Desk

end FeedDesk
