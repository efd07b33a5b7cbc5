import FeedDesk.Proofs.Desk.Recording

/-!
# Attempts at jobs

Jobs are attempted in turn if every attempt is for the first of the jobs that no attempt before it
had acknowledged. The jobs that are left are then those behind the acknowledged ones.
-/
namespace FeedDesk

def CallOutcome.acknowledges : CallOutcome Bool → Bool
  | .answers (.ok true) => true
  | _ => false

def acknowledged (record : List Attempt) : List AppendRequest :=
  (record.filter fun a => a.2.acknowledges).map Prod.fst

/-- The jobs that are left of some after a record of attempts. There are none unless the attempts
were made in turn. -/
def leftOver (defaults : DispatchDefaults) : List Job → List Attempt → Option (List Job)
  | jobs, [] => some jobs
  | [], _ :: _ => none
  | job :: rest, (request, outcome) :: record =>
    if request = job.request defaults then
      leftOver defaults (if outcome.acknowledges then rest else job :: rest) record
    else none

section
variable {defaults : DispatchDefaults} {jobs : List Job}

theorem leftOver_append (a b : List Attempt) :
    leftOver defaults jobs (a ++ b) =
      (leftOver defaults jobs a).bind fun left => leftOver defaults left b := by
  induction a generalizing jobs with
  | nil => rfl
  | cons attempt a ih =>
    obtain ⟨request, outcome⟩ := attempt
    cases jobs with
    | nil => rfl
    | cons job rest =>
      simp only [List.cons_append, leftOver]
      split
      · exact ih
      · rfl

/-- An attempt at the first job that is left, which is acknowledged or not. -/
theorem leftOver_attempt {record : List Attempt} {job : Job} {rest : List Job}
    (h : leftOver defaults jobs record = some (job :: rest)) (outcome : CallOutcome Bool) :
    leftOver defaults jobs (record ++ [(job.request defaults, outcome)]) =
      some (if outcome.acknowledges then rest else job :: rest) := by
  simp [leftOver_append, h, leftOver]

theorem acknowledged_of_leftOver {record : List Attempt} {left : List Job}
    (h : leftOver defaults jobs record = some left) :
    ∃ sent, jobs = sent ++ left ∧ acknowledged record = sent.map (Job.request defaults) := by
  induction record generalizing jobs with
  | nil =>
    obtain rfl := Option.some.inj h
    exact ⟨[], rfl, rfl⟩
  | cons attempt record ih =>
    obtain ⟨request, outcome⟩ := attempt
    cases jobs with
    | nil => simp [leftOver] at h
    | cons job rest =>
      rw [leftOver] at h
      split at h
      next hrequest =>
        obtain ⟨sent, hsent, hack⟩ := ih h
        subst hrequest
        cases hend : outcome.acknowledges with
        | true =>
          rw [hend, if_pos rfl] at hsent
          refine ⟨job :: sent, by rw [hsent, List.cons_append], ?_⟩
          rw [List.map_cons, ← hack]
          simp [acknowledged, hend]
        | false =>
          rw [hend, if_neg (by simp)] at hsent
          refine ⟨sent, hsent, ?_⟩
          rw [← hack]
          simp [acknowledged, hend]
      · cases h

/-- Whether every attempt of a record is for the first of the jobs behind those acknowledged
before it. -/
def InTurn (defaults : DispatchDefaults) (jobs : List Job) (record : List Attempt) : Prop :=
  ∀ past attempt later, record = past ++ attempt :: later →
    ∃ sent job rest, jobs = sent ++ job :: rest ∧
      acknowledged past = sent.map (Job.request defaults) ∧ attempt.1 = job.request defaults

theorem inTurn_of_leftOver {record : List Attempt}
    (h : (leftOver defaults jobs record).isSome) : InTurn defaults jobs record := by
  rintro past ⟨request, outcome⟩ later rfl
  rw [leftOver_append] at h
  cases hpast : leftOver defaults jobs past with
  | none => simp [hpast] at h
  | some left =>
    obtain ⟨sent, hsent, hack⟩ := acknowledged_of_leftOver hpast
    cases left with
    | nil => simp [hpast, leftOver] at h
    | cons job rest =>
      refine ⟨sent, job, rest, hsent, hack, ?_⟩
      by_cases hrequest : request = job.request defaults
      · exact hrequest
      · simp [hpast, leftOver, hrequest] at h

end

end FeedDesk
