import FeedDesk.Proofs.Desk.Progress
import FeedDesk.Proofs.Desk.Settling

/-!
# Batches of a run

Between the beginning of a batch and its end a desk by itself does nothing but send the batch, as
long as the view is not closed. So what the host hears in between is what the batch has reported.
-/
namespace FeedDesk

/-- Whether a move closes the view, if only to open it again. -/
def Move.Leaves : Move → Prop
  | .operate (.openOn _) | .operate .cancel => True
  | _ => False

namespace Desk

variable {σ : Type} {remote : Remote σ} {w : BatchWork} {jobs : JobQueue}

def Begins (desk : Desk σ) (op : Operation) (jobs : JobQueue) : Prop :=
  ∃ token batch defaults, Effect.start (.dispatch token batch defaults jobs) ∈
    (desk.dialog.perform desk.wallClock op).turn.effects

/-- Whether a run goes on until the batch that is being sent has ended and no further, and no move
of it closes the view. -/
def EndsBatch (remote : Remote σ) (desk : Desk σ) : List Move → Prop
  | [] => desk.dialog.phase ≠ .dispatching
  | m :: ms => desk.dialog.phase = .dispatching ∧ ¬ m.Leaves ∧
    EndsBatch remote (desk.move remote m) ms

/-- What the host and the view have of a batch that ended between two desks, unless it broke off.
The record and the calls are those in between. -/
def ReportsBatch (jobs : JobQueue) (start desk : Desk (σ × List Attempt)) : Prop :=
  ∃ session record calls, start.dialog.session = some session ∧
    desk.remote.2 = start.remote.2 ++ record ∧ desk.hostCalls = start.hostCalls ++ calls ∧
    ((∀ a ∈ record, ∀ text, a.2 ≠ .breaks text) →
      desk.dialog.Concluded session.defaults jobs record calls)

/-- A desk that is sending a batch, or at which it has ended, with the attempts and the calls made
since another desk. -/
structure Working (w : BatchWork) (jobs : JobQueue) (desk start : Desk (σ × List Attempt)) :
    Prop where
  exclusive : desk.Exclusive
  listening : desk.listening = true
  state : ∃ record calls, desk.remote.2 = start.remote.2 ++ record ∧
    desk.hostCalls = start.hostCalls ++ calls ∧
    (desk.dialog.Sending w jobs record calls desk.tasks desk.queue ∨
      desk.dialog.Ended w jobs record calls)

theorem fresh_append {desk : Desk σ} {a b : List Move} :
    desk.Fresh remote (a ++ b) ↔ desk.Fresh remote a ∧ (desk.moves remote a).Fresh remote b := by
  induction a generalizing desk with
  | nil => exact (true_and _).symm ▸ Iff.rfl
  | cons m a ih => exact (and_congr_right fun _ => ih).trans and_assoc.symm

/-- An event that the view does not heed is taken from the queue, and that is all. -/
theorem handleNext_of_unheeded {desk : Desk σ}
    (h : ∀ event ∈ desk.queue.head?, ¬ desk.dialog.Heeds event) :
    desk.handleNext = desk.dismissNext := by
  unfold handleNext dismissNext
  split
  next hq =>
    rw [hq, List.tail_nil, ← hq]
  next event rest hq =>
    have hunheeded : ¬ desk.dialog.Heeds event := h event (by rw [hq]; rfl)
    have hsame : ({ desk with queue := rest } : Desk σ).after (.deliver event) =
        { desk with queue := rest } := after_unheeded _ hunheeded
    rw [hsame, hq, List.tail_cons]

/-- A view that is not ready refuses what needs it to be. -/
theorem after_refused {desk : Desk σ} {op : Operation} (hop : op.NeedsReady)
    (hp : desk.dialog.phase ≠ .ready) : desk.after op = desk := by
  cases op with
  | openOn | cancel | deliver => exact hop.elim
  | setFilter | setNaming | fetch | retry =>
    simp only [after, perform, Dialog.perform, Dialog.setFilter, Dialog.setNaming, Dialog.fetch,
      Dialog.retry, Dialog.whenReady_of_ne hp]
    rfl

section
variable {start desk : Desk (σ × List Attempt)}

theorem Working.handleNext (h : desk.Working w jobs start) :
    desk.handleNext.Working w jobs start := by
  obtain ⟨record, calls, hrecord, hcalls, hc | hc⟩ := h.state
  · rcases handleNext_transition h.exclusive.consistent.coherent with
      ⟨-, heq⟩ | ⟨event, rest, r, hq, ht, heq⟩
    · rw [heq]
      exact h
    · rw [hq] at hc
      refine ⟨h.exclusive.handleNext, ?_, record, calls ++ hostCallsOf r.turn.effects, ?_, ?_, ?_⟩
      · rw [heq]
        exact h.listening
      · rw [heq]
        exact hrecord
      · rw [heq, ← List.append_assoc, ← hcalls]
      · rw [heq]
        exact ht.sending rfl hc desk.time
  · have hidle : ∀ event, ¬ desk.dialog.Heeds event :=
      Dialog.not_heeds_of_idle (by rcases hc.idle with h | h <;> simp [h])
        (by rcases hc.idle with h | h <;> simp [h])
    have hx := h.exclusive.handleNext
    rw [handleNext_of_unheeded fun event _ => hidle event] at hx ⊢
    exact ⟨hx, h.listening, record, calls, hrecord, hcalls, .inr hc⟩

theorem Working.goOn (h : desk.Working w jobs start) (index : Nat) :
    (desk.goOn remote.recording index).Working w jobs start := by
  have hx : (desk.goOn remote.recording index).Exclusive := h.exclusive.goOn index
  rcases goOn_resume remote.recording desk index with ⟨-, heq⟩ | ⟨task, time, hget, heq⟩
  · rw [heq]
    exact h
  · rw [heq] at hx ⊢
    obtain ⟨record, calls, hrecord, hcalls, hc | hc⟩ := h.state
    · obtain ⟨record', hrecord', hc'⟩ := hc.absorb h.exclusive hget hrecord
      refine ⟨hx, h.listening, record', calls, hrecord', hcalls, .inl ?_⟩
      simp only [Desk.absorb, h.listening, if_true]
      exact hc'
    · -- After the end of the batch no work is left that could add to the record.
      have hk : task.activity.kind ≠ .dispatch := by
        intro hk
        have hp := (Dialog.Exclusive.batch_alone h.exclusive hget hk).1
        rcases hc.idle with h | h <;> simp [h] at hp
      refine ⟨hx, h.listening, record, calls, ?_, hcalls, .inr hc⟩
      exact (Activity.resume_aside hk desk.remote).record.trans hrecord

/-- While a batch is being sent, moves that do not close the view go on with it or end it. -/
theorem Working.move {m : Move} (h : desk.Working w jobs start) (hown : m.Own)
    (hlistens : m ≠ .stopListening) (hp : desk.dialog.phase = .dispatching) (hm : ¬ m.Leaves) :
    (desk.move remote.recording m).Working w jobs start := by
  cases m with
  | operate op =>
    have hop : op.NeedsReady := by
      cases op with
      | openOn | cancel => exact absurd trivial hm
      | deliver => exact hown.elim
      | setFilter | setNaming | fetch | retry => trivial
    rw [Desk.move, after_refused hop (by simp [hp])]
    exact h
  | handleNext => exact h.handleNext
  | dismissNext => exact hown.elim
  | goOn index => exact h.goOn index
  | settle =>
    exact settle_induction (P := fun desk => desk.Working w jobs start)
      (fun _ h => h.handleNext) (fun _ index h => h.goOn index) h
  | pass => exact ⟨h.exclusive, h.listening, h.state⟩
  | stopListening => exact absurd rfl hlistens

theorem Working.moves {ms : List Move} (h : desk.Working w jobs start) (hown : ∀ m ∈ ms, m.Own)
    (hlistens : ∀ m ∈ ms, m ≠ .stopListening) (hends : desk.EndsBatch remote.recording ms) :
    ∃ record calls, (desk.moves remote.recording ms).remote.2 = start.remote.2 ++ record ∧
      (desk.moves remote.recording ms).hostCalls = start.hostCalls ++ calls ∧
      (desk.moves remote.recording ms).dialog.Ended w jobs record calls := by
  induction ms generalizing desk with
  | nil =>
    obtain ⟨record, calls, hrecord, hcalls, hc | hc⟩ := h.state
    · exact absurd hc.phase hends
    · exact ⟨record, calls, hrecord, hcalls, hc⟩
  | cons m ms ih =>
    obtain ⟨hm, hms⟩ := List.forall_mem_cons.mp hown
    obtain ⟨hl, hls⟩ := List.forall_mem_cons.mp hlistens
    obtain ⟨hp, hleaves, hrest⟩ := hends
    exact ih (h.move hm hl hp hleaves) hms hls hrest

/-- An operation that begins a batch leaves the desk with the batch to send. -/
theorem Trailed.begin {op : Operation} (h : desk.Trailed) (hl : desk.listening = true)
    (hop : op.handled = []) (hfresh : ¬ desk.Reuses (.operate op)) (hb : desk.Begins op jobs) :
    ∃ s, (desk.after op).dialog.session = some s ∧
      (desk.after op).Working ⟨s.token, s.batch, s.defaults, jobs.size⟩ jobs (desk.after op) := by
  obtain ⟨token, batch, defaults, hstart⟩ := hb
  have ht : Transition desk.wallClock desk.dialog op (desk.dialog.perform desk.wallClock op) :=
    perform_transition h.exclusive.consistent.coherent op
  obtain ⟨hp, s, hs, hturn⟩ := ht.sends hstart
  have hx := h.exclusive.after hop hfresh
  have heq : desk.after op = desk.follow (desk.dialog.perform desk.wallClock op).turn := rfl
  rw [heq, hturn, follow_eq] at hx ⊢
  refine ⟨_, rfl, hx, hl, [], [], (List.append_nil _).symm, (List.append_nil _).symm, .inl ?_⟩
  exact Dialog.sending_start h.exclusive h.holds hp hs desk.time jobs

end

theorem listening_moves {desk : Desk σ} {ms : List Move} (h : desk.listening = true)
    (hlistens : ∀ m ∈ ms, m ≠ .stopListening) : (desk.moves remote ms).listening = true := by
  induction ms generalizing desk with
  | nil => exact h
  | cons m ms ih =>
    obtain ⟨hm, hms⟩ := List.forall_mem_cons.mp hlistens
    refine ih ?_ hms
    cases m with
    | operate op =>
      rw [move, after, perform, follow_eq]
      exact h
    | handleNext => exact (handleNext_listening desk).trans h
    | goOn index => exact (goOn_listening desk index).trans h
    | settle =>
      refine settle_induction (P := fun desk => desk.listening = true) ?_ ?_ h
      · exact fun desk h => (handleNext_listening desk).trans h
      · exact fun desk index h => (goOn_listening desk index).trans h
    | dismissNext | pass => exact h
    | stopListening => exact absurd rfl hm

/-- Take a run of a desk by itself, with the events of its tasks handled in the order of the
reports and none lost, in which an operation begins a batch, and go on until the batch has ended.
Unless an attempt broke off or the view was closed before, the host has heard of every acknowledged
job once, in order, and of no other progress. Then either all jobs are acknowledged, and the view
is closed and their number announced once after that, or the view is ready after one alert, and
keeps what is left for a retry. Tokens have 64 bits, so this needs that no session is opened under
a token that an event still waits with. -/
theorem batch_concludes (remote : Remote σ) (settings : DialogSettings) (wallClock : Int64) (s : σ)
    (before after : List Move) (op : Operation) (jobs : JobQueue)
    (hown : ∀ m ∈ before ++ .operate op :: after, m.Own)
    (hlistens : ∀ m ∈ before ++ .operate op :: after, m ≠ .stopListening)
    (hfresh : (create settings wallClock (s, [])).Fresh remote.recording
      (before ++ .operate op :: after))
    (hbegins : (recorded remote settings wallClock s before).Begins op jobs)
    (hends : (recorded remote settings wallClock s (before ++ [.operate op])).EndsBatch
      remote.recording after) :
    (recorded remote settings wallClock s (before ++ .operate op :: after)).forget =
        (create settings wallClock s).moves remote (before ++ .operate op :: after) ∧
      ReportsBatch jobs (recorded remote settings wallClock s (before ++ [.operate op]))
        (recorded remote settings wallClock s (before ++ .operate op :: after)) := by
  refine ⟨forget_moves remote _ _, ?_⟩
  rw [List.forall_mem_append, List.forall_mem_cons] at hown hlistens
  obtain ⟨hbefore, hop, hafter⟩ := hown
  rw [fresh_append] at hfresh
  obtain ⟨hfirst, hnew, -⟩ := hfresh
  have htrailed : (recorded remote settings wallClock s before).Trailed :=
    (trailed_create settings wallClock (s, [])).moves hbefore hfirst
  have hlistening : (recorded remote settings wallClock s before).listening = true :=
    listening_moves rfl hlistens.1
  have hstart : recorded remote settings wallClock s (before ++ [.operate op]) =
      (recorded remote settings wallClock s before).after op := recorded_append ..
  have hend : recorded remote settings wallClock s (before ++ .operate op :: after) =
      ((recorded remote settings wallClock s before).after op).moves remote.recording after :=
    recorded_append ..
  rw [hstart] at hends
  obtain ⟨session, hs, hworking⟩ := htrailed.begin hlistening hop.handled hnew hbegins
  obtain ⟨record, calls, hrecord, hcalls, hended⟩ := hworking.moves hafter hlistens.2.2 hends
  rw [hstart, hend]
  exact ⟨session, record, calls, hs, hrecord, hcalls, hended.concluded⟩

def refusedRecord (defaults : DispatchDefaults) (first second : Job) : List Attempt :=
  [(first.request defaults, .answers (.ok true)), (second.request defaults, .answers (.ok false))]

theorem refused_batch_concludes :
    ∃ calls,
      (recorded (.wavering [{ url := "a" }, { url := "b" }]) ⟨25, 300, 0⟩ 0 true
        (loadedRun ++ .operate (.fetch ["a", "b"]) :: [.settle])).forget =
          (create ⟨25, 300, 0⟩ 0 true).moves (.wavering [{ url := "a" }, { url := "b" }])
            (loadedRun ++ .operate (.fetch ["a", "b"]) :: [.settle]) ∧
      (recorded (.wavering [{ url := "a" }, { url := "b" }]) ⟨25, 300, 0⟩ 0 true
        (loadedRun ++ .operate (.fetch ["a", "b"]) :: [.settle])).dialog.Concluded
          (default : FeedSource).defaults ⟨.ofItem { url := "a" }, [.ofItem { url := "b" }]⟩
          (refusedRecord (default : FeedSource).defaults (.ofItem { url := "a" })
            (.ofItem { url := "b" })) calls := by
  obtain ⟨hforget, session, record, calls, hs, hrecord, -, hconcluded⟩ :=
    batch_concludes (.wavering [{ url := "a" }, { url := "b" }]) ⟨25, 300, 0⟩ 0 true loadedRun
      [.settle] (.fetch ["a", "b"]) ⟨.ofItem { url := "a" }, [.ofItem { url := "b" }]⟩
      (by simp [loadedRun, Move.Own]) (by simp [loadedRun])
      ((orderly_create _ _ _).fresh (by simp [loadedRun, Move.Own]) (by decide))
      ⟨_, _, _, .tail _ (.tail _ (.head _))⟩ ⟨rfl, id, (by decide : Phase.ready ≠ .dispatching)⟩
  obtain rfl := Option.some.inj hs
  obtain rfl : refusedRecord _ _ _ = record := hrecord
  refine ⟨calls, hforget, hconcluded ?_⟩
  simp [refusedRecord]

end Desk

end FeedDesk
