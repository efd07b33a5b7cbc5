import FeedDesk.Proofs.Desk.Attempts
import FeedDesk.Proofs.Desk.Bursts

/-!
# What batches leave

A batch attempts the jobs it was given in turn. While it is under way, what it is about to send is
what is left of the jobs, and so is what it reports at its end. A batch that breaks off reports
nothing of that.
-/
namespace FeedDesk

/-- What a report says is left, if it says anything of that, is what is left. -/
def Report.Accounts (left : Option (List Job)) : Report → Prop
  | .finished _ (.ok _) => left = some []
  | .finished _ (.error failure) => left = some failure.retryQueue.toList
  | _ => True

def Activity.Accounts (defaults : DispatchDefaults) (jobs : List Job) (record : List Attempt) :
    Activity → Prop
  | .unstarted (.dispatch _ _ used queue) =>
    used = defaults ∧ leftOver defaults jobs record = some queue.toList
  | .appending w _ job outcome rest =>
    w.defaults = defaults ∧ ∃ past, record = past ++ [(job.request defaults, outcome)] ∧
      leftOver defaults jobs past = some (job :: rest)
  | _ => True

/-- What a task does adds attempts to the record behind those before, and accounts for what is
left. -/
def Burst.Accounts {σ : Type} (defaults : DispatchDefaults) (jobs : List Job)
    (before : List Attempt) (burst : Burst (σ × List Attempt)) : Prop :=
  ∃ record, burst.remote.2 = before ++ record ∧ (leftOver defaults jobs record).isSome ∧
    (∀ t ∈ burst.next.toList, t.activity.Accounts defaults jobs record) ∧
    ∀ e ∈ burst.events, e.report.Accounts (leftOver defaults jobs record)

theorem Report.accounts_of_ends {r : Report} (h : r.ends? ≠ some .dispatch)
    (left : Option (List Job)) : r.Accounts left := by
  cases r with
  | finished => exact absurd rfl h
  | loaded | progress | timeElapsed | panicked => trivial

theorem Activity.accounts_of_kind {a : Activity} (h : a.kind ≠ .dispatch)
    (defaults : DispatchDefaults) (jobs : List Job) (record : List Attempt) :
    a.Accounts defaults jobs record := by
  cases a with
  | unstarted task =>
    cases task with
    | dispatch => exact absurd rfl h
    | load | timer => trivial
  | appending => exact absurd rfl h
  | loading | waiting => trivial

theorem Underway.accounts {token : SessionToken} {events : List Event} (h : Underway token events)
    (left : Option (List Job)) : ∀ e ∈ events, e.report.Accounts left := by
  intro e he
  exact Report.accounts_of_ends (by simp [(h e he).2]) left

theorem Underway.accounts_append {token : SessionToken} {early : List Event} {last : Event}
    {left : Option (List Job)} (h : Underway token early) (hl : last.report.Accounts left) :
    ∀ e ∈ early ++ [last], e.report.Accounts left := by
  intro e he
  rcases List.mem_append.mp he with he | he
  · exact h.accounts left e he
  · rw [List.mem_singleton.mp he]
    exact hl

theorem acknowledges_of_refusal {answer : Answer Bool} :
    (CallOutcome.answers answer).acknowledges = (refusal? answer).isNone := by
  rcases answer with _ | _ | _ <;> rfl

section
variable {σ : Type} {remote : Remote σ} {now : Nat} {defaults : DispatchDefaults}
  {jobs : List Job} {before : List Attempt}

namespace BatchWork

variable {w : BatchWork} {unheard : List BatchProgress} {done : List Job} {job : Job}
  {rest : List Job} {s : σ × List Attempt} {record : List Attempt}

theorem send_accounts (hw : w.defaults = defaults) (hs : s.2 = before ++ record)
    (hl : leftOver defaults jobs record = some (job :: rest))
    (h : ∀ outcome (s : σ × List Attempt),
      s.2 = before ++ (record ++ [(job.request defaults, outcome)]) →
      (w.goOn remote.recording now unheard done job outcome rest s).Accounts defaults jobs
        before) :
    (w.send remote.recording now unheard done job rest s).Accounts defaults jobs before := by
  unfold send
  dsimp only
  have hrecord : (remote.recording.append (job.request w.defaults) s).2.2 =
      before ++ (record ++ [(job.request defaults,
        (remote.recording.append (job.request w.defaults) s).1.outcome)]) := by
    rw [← List.append_assoc, ← hs, hw]
    rfl
  split
  · exact h _ _ hrecord
  · refine ⟨_, hrecord, ?_, ?_, (w.underway_progress unheard).accounts _⟩
    · rw [leftOver_attempt hl]
      rfl
    · intro t ht
      rw [Option.toList_some, List.mem_singleton] at ht
      rw [ht]
      exact ⟨hw, record, rfl, hl⟩

theorem goOn_accounts (hw : w.defaults = defaults) (outcome : CallOutcome Bool)
    (hs : s.2 = before ++ (record ++ [(job.request defaults, outcome)]))
    (hl : leftOver defaults jobs record = some (job :: rest)) :
    (w.goOn remote.recording now unheard done job outcome rest s).Accounts defaults jobs
      before := by
  refine w.goOn_induction (P := fun _ _ job outcome rest (s : σ × List Attempt) burst =>
      ∀ record, s.2 = before ++ (record ++ [(job.request defaults, outcome)]) →
        leftOver defaults jobs record = some (job :: rest) → burst.Accounts defaults jobs before)
    ?breaks ?refused ?last ?more unheard done job outcome rest s record hs hl
  case breaks =>
    intro _ _ job text rest s record hs hl
    refine ⟨_, hs, by simp [leftOver_attempt hl], by simp, ?_⟩
    simp [event, Report.Accounts]
  case refused =>
    intro unheard _ job answer error rest s hr record hs hl
    have hleft := leftOver_attempt hl (.answers answer)
    rw [acknowledges_of_refusal, hr] at hleft
    exact ⟨_, hs, by simp [hleft], by simp, (w.underway_progress unheard).accounts_append hleft⟩
  case last =>
    intro unheard done job answer s hr record hs hl
    have hleft := leftOver_attempt hl (.answers answer)
    rw [acknowledges_of_refusal, hr] at hleft
    exact ⟨_, hs, by simp [hleft], by simp, (w.underway_progress _).accounts_append hleft⟩
  case more =>
    intro unheard done job answer next rest s hr ih record hs hl
    have hleft := leftOver_attempt hl (.answers answer)
    rw [acknowledges_of_refusal, hr] at hleft
    exact send_accounts hw hs hleft fun outcome s hs => ih _ _ outcome s _ hs hleft

end BatchWork

theorem Activity.resume_accounts {a : Activity} {s : σ × List Attempt} {record : List Attempt}
    (ha : a.Accounts defaults jobs record) (hs : s.2 = before ++ record)
    (hl : (leftOver defaults jobs record).isSome) :
    (a.resume remote.recording now s).Accounts defaults jobs before ∧
      (a.kind ≠ .dispatch → (a.resume remote.recording now s).remote.2 = s.2) := by
  cases a with
  | unstarted task =>
    cases task with
    | load token call =>
      refine ⟨⟨record, hs, hl, ?_, by simp [resume, Task.start]⟩, fun _ => rfl⟩
      simp [resume, Task.start, Activity.Accounts]
    | timer token batch delay =>
      refine ⟨⟨record, hs, hl, ?_, by simp [resume, Task.start]⟩, fun _ => rfl⟩
      simp [resume, Task.start, Activity.Accounts]
    | dispatch token batch used queue =>
      refine ⟨?_, fun h => absurd rfl h⟩
      rw [resume, start_dispatch]
      exact BatchWork.send_accounts ha.1 hs ha.2 fun outcome s hs =>
        BatchWork.goOn_accounts ha.1 outcome hs ha.2
  | loading token outcome =>
    refine ⟨⟨record, hs, hl, by simp [resume], ?_⟩, fun _ => rfl⟩
    cases outcome <;> simp [resume, loadEvent, Report.Accounts]
  | waiting token batch =>
    refine ⟨⟨record, hs, hl, by simp [resume], ?_⟩, fun _ => rfl⟩
    simp [resume, Report.Accounts]
  | appending w done job outcome rest =>
    refine ⟨?_, fun h => absurd rfl h⟩
    obtain ⟨hw, past, rfl, hpast⟩ := ha
    exact BatchWork.goOn_accounts hw outcome hs hpast

end

end FeedDesk
