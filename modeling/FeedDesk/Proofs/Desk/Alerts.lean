import FeedDesk.Proofs.Desk.Moves

/-!
# Alerts

A desk makes alerts under one title only. What is particular to an alert, such as what the server
had to say, is in its message.
-/
namespace FeedDesk

/-- Whether a call to the host is no alert, or one under the usual title. -/
def HostCall.UsuallyTitled : HostCall → Prop
  | .alert heading _ => heading = "Error"
  | _ => True

theorem usuallyTitled_signOff (s : Session) :
    ∀ call ∈ hostCallsOf s.signOff, call.UsuallyTitled := by
  unfold Session.signOff
  split <;> simp [HostCall.UsuallyTitled]

theorem usuallyTitled_closing (s : Session) :
    ∀ call ∈ hostCallsOf s.closing, call.UsuallyTitled := by
  simp only [Session.closing, hostCallsOf_abandonTasks, hostCallsOf_append,
    List.forall_mem_append]
  exact ⟨usuallyTitled_signOff s, by simp [HostCall.UsuallyTitled]⟩

theorem usuallyTitled_refresh (d : Dialog) (now : Int64) :
    ∀ call ∈ hostCallsOf (d.refresh now).effects, call.UsuallyTitled := by
  unfold Dialog.refresh
  split
  · simp [Turn.idle]
  · dsimp only
    split <;> simp [HostCall.UsuallyTitled]

theorem Transition.usuallyTitled {now : Int64} {d : Dialog} {op : Operation} {r : Reply}
    (h : Transition now d op r) : ∀ call ∈ hostCallsOf r.turn.effects, call.UsuallyTitled := by
  cases h with
  | refused | unopened | unfailed | unheeded => simp [Turn.idle]
  | unchecked | progressed | timeElapsed | opened | loaded | fetched | retried =>
    simp [HostCall.UsuallyTitled, FeedSource.opening, Dialog.tableEffects, Dialog.batchEffects]
  | filtered | renamed => exact usuallyTitled_refresh _ now
  | cancelled s => exact usuallyTitled_closing s
  | reopened _ s | loadFailed _ _ s =>
    simp only [hostCallsOf_append, List.forall_mem_append]
    exact ⟨usuallyTitled_closing s, by simp [HostCall.UsuallyTitled, FeedSource.opening]⟩
  | completed _ s =>
    simp only [hostCallsOf_append, List.forall_mem_append]
    exact ⟨⟨usuallyTitled_signOff s, usuallyTitled_closing s.unsigned⟩,
      by simp [HostCall.UsuallyTitled]⟩
  | halted _ s | brokenOff _ s =>
    simp only [hostCallsOf_append, List.forall_mem_append]
    exact ⟨usuallyTitled_signOff s, by simp [HostCall.UsuallyTitled]⟩

namespace Desk

variable {σ : Type} {remote : Remote σ} {desk : Desk σ}

structure AlertsUsually (desk : Desk σ) : Prop where
  coherent : desk.dialog.Coherent
  titles : ∀ call ∈ desk.hostCalls, call.UsuallyTitled

namespace AlertsUsually

theorem after (h : desk.AlertsUsually) (op : Operation) : (desk.after op).AlertsUsually := by
  obtain ⟨r, ht, -, heq⟩ := after_transition h.coherent op
  rw [heq]
  exact ⟨ht.coherent h.coherent, List.forall_mem_append.mpr ⟨h.titles, ht.usuallyTitled⟩⟩

theorem handleNext (h : desk.AlertsUsually) : desk.handleNext.AlertsUsually := by
  rcases handleNext_transition h.coherent with ⟨-, heq⟩ | ⟨event, rest, r, -, ht, heq⟩ <;> rw [heq]
  · exact h
  · exact ⟨ht.coherent h.coherent, List.forall_mem_append.mpr ⟨h.titles, ht.usuallyTitled⟩⟩

theorem goOn (h : desk.AlertsUsually) (index : Nat) : (desk.goOn remote index).AlertsUsually := by
  rcases goOn_resume remote desk index with ⟨-, heq⟩ | ⟨task, time, -, heq⟩ <;> rw [heq]
  · exact h
  · exact ⟨h.coherent, h.titles⟩

theorem settle (h : desk.AlertsUsually) : (desk.settle remote).AlertsUsually :=
  settle_induction (fun _ h => h.handleNext) (fun _ index h => h.goOn index) h

end AlertsUsually

end Desk

end FeedDesk
