import FeedDesk.Proofs.Dispatch.Selection
import FeedDesk.Proofs.Desk.Reopening

/-!
# Refused operations

An operation that needs a ready view is refused while the view is not ready, sending is refused
with nothing checked, and a retry with nothing to retry. A refused operation leaves the desk as it
is: at most, the operator is told to select items.
-/
namespace FeedDesk

def DialogError.told : DialogError → List HostCall
  | .emptySelection => [.notify .selectItems]
  | .notReady _ | .nothingToRetry => []

section
variable {now : Int64} {d : Dialog} {r : Reply}

theorem Transition.notReady_iff {op : Operation} (h : Transition now d op r)
    (hop : op.NeedsReady) (phase : Phase) :
    r.outcome = .error (.notReady phase) ↔ phase = d.phase ∧ d.phase ≠ .ready := by
  cases h with
  | refused _ _ hp => simp [hp, eq_comm]
  | filtered _ _ hp | renamed _ _ hp | unchecked _ _ hp | fetched _ _ _ hp | unfailed _ hp
  | retried _ _ hp => simp [hp]
  | opened | reopened | unopened | cancelled | unheeded | loadFailed | loaded | progressed
  | timeElapsed | completed | halted | brokenOff => exact hop.elim

theorem Transition.emptySelection_iff {checked : List String} {s : Session}
    (h : Transition now d (.fetch checked) r) (hp : d.phase = .ready) (hs : d.session = some s) :
    r.outcome = .error .emptySelection ↔
      JobQueue.ofSelection? s.loadedItems checked = none := by
  cases h with
  | refused _ _ hne => exact absurd hp hne
  | unchecked _ s' _ hs' hq =>
    obtain rfl := Option.some.inj (hs'.symm.trans hs)
    simp [hq]
  | fetched _ queue s' _ hs' hq =>
    obtain rfl := Option.some.inj (hs'.symm.trans hs)
    simp [hq]

theorem Transition.nothingToRetry_iff {s : Session} (h : Transition now d .retry r)
    (hp : d.phase = .ready) (hs : d.session = some s) :
    r.outcome = .error .nothingToRetry ↔ s.pendingRetry = none := by
  cases h with
  | refused _ _ hne => exact absurd hp hne
  | unfailed s' _ hs' hr =>
    obtain rfl := Option.some.inj (hs'.symm.trans hs)
    simp [hr]
  | retried failure s' _ hs' hr =>
    obtain rfl := Option.some.inj (hs'.symm.trans hs)
    simp [hr]

/-- A refused operation leaves the view as it is. -/
theorem Transition.of_refused {op : Operation} {e : DialogError} (h : Transition now d op r)
    (he : r.outcome = .error e) :
    r.turn = ⟨d, e.told.map .host⟩ := by
  cases h with
  | refused | unchecked | unfailed =>
    cases he
    rfl
  | _ => cases he

end

namespace Desk

variable {σ : Type}

/-- What a desk refuses, and that this leaves it as it is. Here `NeedsReady` are the operations
that filter, rename, send and retry. -/
structure Refuses (remote : Remote σ) (desk : Desk σ) : Prop where
  notReady : ∀ op : Operation, op.NeedsReady → ∀ phase,
    (desk.perform op).1 = .error (.notReady phase) ↔
      phase = desk.dialog.phase ∧ desk.dialog.phase ≠ .ready
  ready : desk.dialog.phase = .ready → ∃ s items, desk.dialog.session = some s ∧
    s.items = some items ∧
    (∀ checked, (desk.perform (.fetch checked)).1 = .error .emptySelection ↔
      ∀ item ∈ items, item.url ∉ checked) ∧
    ((desk.perform .retry).1 = .error .nothingToRetry ↔ s.pendingRetry = none)
  unchanged : ∀ op e, (desk.perform op).1 = .error e →
    (desk.perform op).2 = { desk with hostCalls := desk.hostCalls ++ e.told }
  silent : ∀ op e, (desk.perform op).1 = .error e → ∀ ms,
    ((desk.perform op).2.moves remote ms).remoteCalls = (desk.moves remote ms).remoteCalls

variable {remote : Remote σ} {settings : DialogSettings} {desk : Desk σ}

/-- Two desks that differ in what was called before are alike. -/
theorem like_refl (desk : Desk σ) (calls : List HostCall) :
    Like 0 { desk with hostCalls := calls } desk [] { desk with hostCalls := calls } desk where
  dialog := desk.dialog.later_zero.symm
  wallClock := rfl
  remote := rfl
  time := rfl
  listening := rfl
  tasks := (List.map_id'' Running.later_zero _).symm
  queue := (List.map_id'' Event.later_zero _).symm
  hostCalls := ⟨[], by simp⟩
  remoteCalls := ⟨[], by simp⟩

/-- What was called before makes no difference to the calls that are made later. -/
theorem moves_remoteCalls (desk : Desk σ) (calls : List HostCall) (ms : List Move) :
    (({ desk with hostCalls := calls } : Desk σ).moves remote ms).remoteCalls =
      (desk.moves remote ms).remoteCalls := by
  have hmoves : Like 0 { desk with hostCalls := calls } desk []
      (({ desk with hostCalls := calls } : Desk σ).moves remote (ms.map (Move.later 0)))
      (desk.moves remote ms) := (desk.like_refl calls).moves ms
  obtain ⟨since, hleft, hright⟩ := hmoves.remoteCalls
  rw [List.map_id'' Move.later_zero] at hleft
  rw [hleft, hright]

theorem Tidy.perform_refused (h : desk.Tidy settings) {op : Operation} {e : DialogError}
    (he : (desk.perform op).1 = .error e) :
    (desk.perform op).2 = { desk with hostCalls := desk.hostCalls ++ e.told } := by
  obtain ⟨r, ht, hperform, heq⟩ := after_transition h.consistent.coherent op
  rw [hperform] at he
  have hturn := ht.of_refused he
  rw [hperform, heq, hturn]
  cases e <;> rfl

theorem Tidy.refuses (h : desk.Tidy settings) : desk.Refuses remote where
  notReady op hop phase := by
    obtain ⟨r, ht, hperform, -⟩ := after_transition h.consistent.coherent op
    rw [hperform]
    exact ht.notReady_iff hop phase
  ready hp := by
    obtain ⟨s, hs⟩ := h.consistent.coherent.exists_session (by simp [hp])
    obtain ⟨items, hitems, -⟩ := ((h.consistent.session_fits s hs).loaded (.inl hp)).1
    refine ⟨s, items, hs, hitems, fun checked => ?_, ?_⟩
    · obtain ⟨r, ht, hperform, -⟩ := after_transition h.consistent.coherent (.fetch checked)
      have hloaded : s.loadedItems = items := by simp [Session.loadedItems, hitems]
      rw [hperform, ht.emptySelection_iff hp hs, hloaded, JobQueue.ofSelection_eq_none]
    · obtain ⟨r, ht, hperform, -⟩ := after_transition h.consistent.coherent .retry
      rw [hperform, ht.nothingToRetry_iff hp hs]
  unchanged op e := h.perform_refused
  silent op e he ms := by
    rw [h.perform_refused he]
    exact desk.moves_remoteCalls _ ms

/-- After any run, with events of any kind, an operation is refused exactly in the cases that it
names, and then the view, its session, the work under way and the events that wait stay as they
are, and no call to the server ever comes of it. -/
theorem refused_operations (remote : Remote σ) (settings : DialogSettings) (wallClock : Int64)
    (s : σ) (ms : List Move) : ((create settings wallClock s).moves remote ms).Refuses remote :=
  ((Tidy.create settings wallClock s).moves ms).refuses

end Desk

end FeedDesk
