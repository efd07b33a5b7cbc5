import FeedDesk.Proofs.Dialog.Run
import Mathlib.Data.List.Induction

/-!
# Pauses of the host's refresh

The host's refresh is paused while a view is open. Over any run, however its view is opened,
reopened, closed and left, pauses and resumptions take turns, and every pause that is over has
been resumed once.
-/
namespace FeedDesk

def HostCall.controlsRefresh : HostCall → Bool
  | .pauseRefresh | .resumeRefresh => true
  | _ => false

def pauseCalls (effects : List Effect) : List HostCall :=
  (hostCallsOf effects).filter HostCall.controlsRefresh

/-- Pauses and resumptions take turns, a pause first. -/
def TakeTurns (calls : List HostCall) : Prop :=
  ∀ i, (h : i < calls.length) →
    calls[i] = if i % 2 = 0 then .pauseRefresh else .resumeRefresh

def Phase.pauses (phase : Phase) : Nat := if phase = .closed then 0 else 1

@[simp] theorem pauseCalls_append (a b : List Effect) :
    pauseCalls (a ++ b) = pauseCalls a ++ pauseCalls b := by
  simp [pauseCalls]

@[simp] theorem pauseCalls_signOff (s : Session) : pauseCalls s.signOff = [] := by
  unfold Session.signOff
  split <;> rfl

@[simp] theorem pauseCalls_closing (s : Session) :
    pauseCalls s.closing = [.resumeRefresh] := by
  rw [Session.closing, ← List.singleton_append]
  simp only [pauseCalls_append, pauseCalls_signOff]
  rfl

@[simp] theorem pauseCalls_opening (source : FeedSource) (token : SessionToken) :
    pauseCalls (source.opening token) = [.pauseRefresh] := rfl

/-! ## Taking turns -/

namespace TakeTurns

variable {calls : List HostCall}

theorem nil : TakeTurns [] := by
  intro i h
  simp at h

theorem concat (ht : TakeTurns calls) {call : HostCall}
    (hc : call = if calls.length % 2 = 0 then .pauseRefresh else .resumeRefresh) :
    TakeTurns (calls ++ [call]) := by
  intro i h
  by_cases hi : i < calls.length
  · rw [List.getElem_append_left hi]
    exact ht i hi
  · have hlast : i = calls.length := by
      rw [List.length_append, List.length_singleton] at h
      omega
    subst hlast
    simpa using hc

theorem pause (ht : TakeTurns calls) (heven : calls.length % 2 = 0) :
    TakeTurns (calls ++ [.pauseRefresh]) :=
  ht.concat (by rw [if_pos heven])

theorem resume (ht : TakeTurns calls) (hodd : calls.length % 2 = 1) :
    TakeTurns (calls ++ [.resumeRefresh]) :=
  ht.concat (by rw [if_neg (by omega)])

theorem of_append {more : List HostCall} (ht : TakeTurns (calls ++ more)) : TakeTurns calls := by
  intro i h
  rw [← ht i (by rw [List.length_append]; omega), List.getElem_append_left h]

theorem count_eq (ht : TakeTurns calls) :
    calls.count .pauseRefresh = calls.count .resumeRefresh + calls.length % 2 := by
  induction calls using List.reverseRecOn with
  | nil => rfl
  | append_singleton calls call ih =>
    have hprev := ih ht.of_append
    have hlast := ht calls.length (by simp)
    rw [List.getElem_concat_length rfl] at hlast
    rw [List.count_append, List.count_append, List.length_append, List.length_singleton]
    by_cases he : calls.length % 2 = 0
    · rw [if_pos he] at hlast
      subst hlast
      have hone : [HostCall.pauseRefresh].count .resumeRefresh = 0 := rfl
      rw [List.count_singleton_self, hone]
      omega
    · rw [if_neg he] at hlast
      subst hlast
      have hone : [HostCall.resumeRefresh].count .pauseRefresh = 0 := rfl
      rw [List.count_singleton_self, hone]
      omega

end TakeTurns

/-! ## Runs -/

/-- Pauses and resumptions have taken turns, and there is a pause that is not over if and only if
the view is open. -/
structure RefreshPaired (past : List Effect) (phase : Phase) : Prop where
  turns : TakeTurns (pauseCalls past)
  length : (pauseCalls past).length % 2 = phase.pauses

namespace RefreshPaired

variable {past effects : List Effect} {phase phase' : Phase}

theorem keep (h : RefreshPaired past phase) (he : pauseCalls effects = [])
    (hp : phase'.pauses = phase.pauses) : RefreshPaired (past ++ effects) phase' := by
  have hsame : pauseCalls (past ++ effects) = pauseCalls past := by
    rw [pauseCalls_append, he, List.append_nil]
  exact ⟨hsame ▸ h.turns, by rw [hsame, h.length, hp]⟩

theorem pause (h : RefreshPaired past phase) (he : pauseCalls effects = [.pauseRefresh])
    (hp : phase.pauses = 0) (hp' : phase'.pauses = 1) :
    RefreshPaired (past ++ effects) phase' := by
  have hlen := h.length
  constructor
  · rw [pauseCalls_append, he]
    exact h.turns.pause (by omega)
  · rw [pauseCalls_append, he, List.length_append, List.length_singleton]
    omega

theorem resume (h : RefreshPaired past phase) (he : pauseCalls effects = [.resumeRefresh])
    (hp : phase.pauses = 1) (hp' : phase'.pauses = 0) :
    RefreshPaired (past ++ effects) phase' := by
  have hlen := h.length
  constructor
  · rw [pauseCalls_append, he]
    exact h.turns.resume (by omega)
  · rw [pauseCalls_append, he, List.length_append, List.length_singleton]
    omega

/-- As many pauses as resumptions while the view is closed, and one more while it is open. -/
theorem count_eq (h : RefreshPaired past phase) :
    (hostCallsOf past).count .pauseRefresh =
      (hostCallsOf past).count .resumeRefresh + phase.pauses := by
  have hcount := h.turns.count_eq
  rw [h.length, pauseCalls, List.count_filter rfl, List.count_filter rfl] at hcount
  exact hcount

end RefreshPaired

theorem Phase.pauses_of_open {phase : Phase} (h : phase ≠ .closed) : phase.pauses = 1 := by
  simp [pauses, h]

theorem Dialog.close_phase {d : Dialog} (hd : d.Coherent) : d.close.dialog.phase = .closed := by
  by_cases hp : d.phase = .closed
  · rw [close_of_closed hp]
    exact hp
  · obtain ⟨s, hs⟩ := hd.exists_session hp
    rw [close_of_open hp hs]
    rfl

theorem Dialog.pauseCalls_refresh (d : Dialog) (now : Int64) :
    pauseCalls (d.refresh now).effects = [] := by
  unfold refresh
  split
  · rfl
  · dsimp only
    split <;> rfl

theorem Transition.refreshPaired {now : Int64} {past : List Effect} {d : Dialog} {op : Operation}
    {r : Reply} (h : Transition now d op r) (hd : RefreshPaired past d.phase) :
    RefreshPaired (past ++ r.turn.effects) r.turn.dialog.phase := by
  cases h with
  | refused | unopened | unfailed | unheeded | unchecked | progressed => exact hd.keep rfl rfl
  | opened source hp =>
    exact hd.pause (pauseCalls_opening _ _) (by simp [Phase.pauses, hp]) rfl
  | reopened source s hp =>
    have hclosed : RefreshPaired (past ++ s.closing) .closed :=
      hd.resume (pauseCalls_closing s) (Phase.pauses_of_open hp) rfl
    rw [← List.append_assoc]
    exact hclosed.pause (pauseCalls_opening _ _) rfl rfl
  | cancelled s hp => exact hd.resume (pauseCalls_closing s) (Phase.pauses_of_open hp) rfl
  | loadFailed _ e s hp =>
    exact hd.resume (by simp [pauseCalls_closing]; rfl) (by simp [Phase.pauses, hp]) rfl
  | completed jobs s hp =>
    exact hd.resume (by simp [pauseCalls_closing]; rfl) (by simp [Phase.pauses, hp]) rfl
  | filtered | renamed =>
    exact hd.keep (Dialog.pauseCalls_refresh _ now) (by rw [Dialog.refresh_phase]; rfl)
  | fetched _ _ s hp | retried _ s hp =>
    exact hd.keep rfl (by simp [Phase.pauses, Dialog.within, hp])
  | loaded items s hp => exact hd.keep rfl (by simp [Phase.pauses, Dialog.within, hp])
  | timeElapsed s hp => exact hd.keep rfl (by simp [Phase.pauses, Dialog.within, hp])
  | halted _ s hp | brokenOff _ s hp =>
    exact hd.keep (by simp; rfl) (by simp [Phase.pauses, Dialog.within, hp])

/-- After any run of a view, pauses and resumptions of the host's refresh have taken turns, a pause
first; there is one pause more than there are resumptions if the view is open, and none if it is
closed; and once the view is left, which closes it, there are as many of both. -/
theorem Dialog.run_refresh_paired (settings : DialogSettings) (ops : List (Int64 × Operation)) :
    let t := (create settings).run ops
    let all := t.effects ++ t.dialog.close.effects
    TakeTurns (pauseCalls t.effects) ∧
      (hostCallsOf t.effects).count .pauseRefresh =
        (hostCallsOf t.effects).count .resumeRefresh +
          (if t.dialog.phase = .closed then 0 else 1) ∧
      TakeTurns (pauseCalls all) ∧
      (hostCallsOf all).count .pauseRefresh = (hostCallsOf all).count .resumeRefresh := by
  intro t all
  have inv : t.dialog.Coherent ∧ RefreshPaired t.effects t.dialog.phase := by
    refine run_create_induction (P := fun past d => d.Coherent ∧ RefreshPaired past d.phase) ?_
      settings ⟨coherent_create settings, TakeTurns.nil, rfl⟩ ops
    intro now past d op r ht hd h
    exact ⟨ht.coherent hd, ht.refreshPaired h.2⟩
  have hcancel : Transition 0 t.dialog .cancel ⟨.ok (), t.dialog.close⟩ := cancel_transition inv.1
  have hleft : RefreshPaired all t.dialog.close.dialog.phase := hcancel.refreshPaired inv.2
  have hcount := hleft.count_eq
  rw [close_phase inv.1] at hcount
  exact ⟨inv.2.turns, inv.2.count_eq, hleft.turns, hcount⟩

end FeedDesk
