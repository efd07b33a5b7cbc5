import FeedDesk.Proofs.Desk.Attempts
import FeedDesk.Proofs.Desk.Bursts
import Mathlib.Data.List.Basic

/-!
# The stages of a batch

What a batch has attempted so far, what it has reported and what it waits for go together. It
reports every acknowledged job once and in order, and at its end how it ended, unless it breaks off.
Each time the work of the batch goes on, it comes from one stage to another.
-/
namespace FeedDesk

def acceptances (defaults : DispatchDefaults) (jobs : List Job) : List Attempt :=
  jobs.map fun job => (job.request defaults, .answers (.ok true))

def BatchProgress.report (p : BatchProgress) : Report := .progress p.done p.total

def progressTo (total done : Nat) : List BatchProgress :=
  (List.range done).map fun i => ⟨i + 1, total⟩

/-- Whether only a batch reports this. -/
def Report.isNews : Report → Bool
  | .progress .. | .finished .. | .panicked .dispatch _ => true
  | _ => false

/-- What a session is told of its batch by some events, in order. -/
def newsFor (token : SessionToken) (events : List Event) : List Report :=
  events.filterMap fun e => if e.token = token ∧ e.report.isNews then some e.report else none

/-- How a batch of some jobs ends: what it has attempted, the progress that it has reported, and
its last report. -/
inductive BatchWork.Closing (w : BatchWork) (jobs : JobQueue) :
    List Attempt → List BatchProgress → Report → Prop
  | completed :
    Closing w jobs (acceptances w.defaults jobs.toList) (progressTo jobs.size jobs.size)
      (.finished w.batch (.ok jobs.toList))
  | halted (done : List Job) (job : Job) (rest : List Job) (answer : Answer Bool)
      (error : RemoteError) (hjobs : jobs.toList = done ++ job :: rest)
      (hr : refusal? answer = some error) :
    Closing w jobs (acceptances w.defaults done ++ [(job.request w.defaults, .answers answer)])
      (progressTo jobs.size done.length)
      (.finished w.batch (.error ⟨job, error, rest, done.length⟩))
  | brokenOff (done : List Job) (job : Job) (text : String) (heard : List BatchProgress) :
    Closing w jobs (acceptances w.defaults done ++ [(job.request w.defaults, .breaks text)]) heard
      (.panicked .dispatch text)

/-- What a batch of some jobs has attempted, what it has reported, and what it waits for if it has
not ended. -/
inductive BatchWork.Stage (w : BatchWork) (jobs : JobQueue) :
    List Attempt → List Report → Option Activity → Prop
  | unstarted (hw : w.total = jobs.size) :
    Stage w jobs [] [] (some (.unstarted (.dispatch w.token w.batch w.defaults jobs)))
  | sending (done : List Job) (job : Job) (rest : List Job) (outcome : CallOutcome Bool)
      (hw : w.total = jobs.size) (hjobs : jobs.toList = done ++ job :: rest) :
    Stage w jobs (acceptances w.defaults done ++ [(job.request w.defaults, outcome)])
      ((progressTo jobs.size done.length).map BatchProgress.report)
      (some (.appending w done job outcome rest))
  | ended (record : List Attempt) (heard : List BatchProgress) (last : Report)
      (h : w.Closing jobs record heard last) :
    Stage w jobs record (heard.map BatchProgress.report ++ [last]) none

/-- What a task does takes a batch to a stage, behind some attempts and after some reports. -/
def Burst.Reaches {σ : Type} (w : BatchWork) (jobs : JobQueue) (past : List Attempt)
    (told : List Report) (burst : Burst (σ × List Attempt)) : Prop :=
  ∃ record, burst.remote.2 = past ++ record ∧
    w.Stage jobs record (told ++ newsFor w.token burst.events) (burst.next.map Running.activity)

theorem Report.isNews_of_ends {r : Report} (h : r.ends? = some .dispatch) : r.isNews = true := by
  cases r with
  | finished => rfl
  | panicked =>
    obtain rfl := Option.some.inj h
    rfl
  | loaded | progress | timeElapsed => cases h

theorem progressTo_succ (total done : Nat) :
    progressTo total (done + 1) = progressTo total done ++ [⟨done + 1, total⟩] := by
  simp [progressTo, List.range_succ]

@[simp] theorem newsFor_nil (token : SessionToken) : newsFor token [] = [] := rfl

theorem newsFor_append (token : SessionToken) (a b : List Event) :
    newsFor token (a ++ b) = newsFor token a ++ newsFor token b :=
  List.filterMap_append

theorem newsFor_cons_of_news (token : SessionToken) {report : Report} (h : report.isNews = true)
    (queue : List Event) : newsFor token (⟨token, report⟩ :: queue) = report :: newsFor token queue :=
  List.filterMap_cons_some (if_pos ⟨rfl, h⟩)

theorem newsFor_cons_of_other {token : SessionToken} {e : Event}
    (h : ¬ (e.token = token ∧ e.report.isNews = true)) (queue : List Event) :
    newsFor token (e :: queue) = newsFor token queue :=
  List.filterMap_cons_none (if_neg h)

theorem newsFor_eq_nil {token : SessionToken} {events : List Event}
    (h : ∀ e ∈ events, ¬ (e.token = token ∧ e.report.isNews = true)) :
    newsFor token events = [] :=
  List.filterMap_eq_nil_iff.mpr fun e he => if_neg (h e he)

theorem acceptances_append (defaults : DispatchDefaults) (done : List Job) (job : Job) :
    acceptances defaults (done ++ [job]) =
      acceptances defaults done ++ [(job.request defaults, .answers (.ok true))] :=
  List.map_append

theorem acknowledged_acceptances (defaults : DispatchDefaults) (done : List Job) :
    acknowledged (acceptances defaults done) = done.map (Job.request defaults) := by
  rw [acknowledged, List.filter_eq_self.mpr (by simp [acceptances, CallOutcome.acknowledges])]
  simp [acceptances, Function.comp_def]

section
variable {σ : Type} {remote : Remote σ} {now : Nat} {w : BatchWork} {jobs : JobQueue}
  {past record : List Attempt} {told : List Report}

namespace BatchWork

variable {unheard : List BatchProgress} {done : List Job} {job : Job} {rest : List Job}
  {s : σ × List Attempt}

theorem newsFor_progressEvents (w : BatchWork) (unheard : List BatchProgress) :
    newsFor w.token (w.progressEvents unheard) = unheard.map BatchProgress.report := by
  induction unheard with
  | nil => rfl
  | cons p unheard ih =>
    change newsFor w.token (⟨w.token, p.report⟩ :: w.progressEvents unheard) = _
    rw [newsFor_cons_of_news w.token rfl, ih, List.map_cons]

theorem newsFor_end (w : BatchWork) (unheard : List BatchProgress) {report : Report}
    (h : report.isNews = true) :
    newsFor w.token (w.progressEvents unheard ++ [w.event report]) =
      unheard.map BatchProgress.report ++ [report] := by
  rw [newsFor_append, newsFor_progressEvents, event, newsFor_cons_of_news w.token h, newsFor_nil]

theorem reaches_end (unheard : List BatchProgress) {report : Report} (h : report.isNews = true)
    (hs : s.2 = past ++ record)
    (hstage : w.Stage jobs record (told ++ unheard.map BatchProgress.report ++ [report]) none) :
    Burst.Reaches w jobs past told
      ⟨[], w.progressEvents unheard ++ [w.event report], none, s⟩ := by
  refine ⟨record, hs, ?_⟩
  rw [w.newsFor_end unheard h, ← List.append_assoc]
  exact hstage

/-- The progress of one more job. -/
theorem told_next (hw : w.total = jobs.size)
    (htold : told ++ unheard.map BatchProgress.report =
      (progressTo jobs.size done.length).map BatchProgress.report) (job : Job) :
    told ++ List.map BatchProgress.report (unheard ++ [⟨(done ++ [job]).length, w.total⟩]) =
      (progressTo jobs.size (done ++ [job]).length).map BatchProgress.report := by
  rw [List.map_append, ← List.append_assoc, htold, List.length_append, List.length_singleton,
    progressTo_succ, List.map_append, hw]

theorem send_reaches (hw : w.total = jobs.size) (hjobs : jobs.toList = done ++ job :: rest)
    (hs : s.2 = past ++ acceptances w.defaults done)
    (htold : told ++ unheard.map BatchProgress.report =
      (progressTo jobs.size done.length).map BatchProgress.report)
    (h : ∀ outcome (s : σ × List Attempt),
      s.2 = past ++ (acceptances w.defaults done ++ [(job.request w.defaults, outcome)]) →
      (w.goOn remote.recording now unheard done job outcome rest s).Reaches w jobs past told) :
    (w.send remote.recording now unheard done job rest s).Reaches w jobs past told := by
  unfold send
  dsimp only
  have hrecord : (remote.recording.append (job.request w.defaults) s).2.2 =
      past ++ (acceptances w.defaults done ++ [(job.request w.defaults,
        (remote.recording.append (job.request w.defaults) s).1.outcome)]) := by
    rw [← List.append_assoc, ← hs]
    rfl
  split
  · exact h _ _ hrecord
  · refine ⟨_, hrecord, ?_⟩
    rw [newsFor_progressEvents, htold]
    exact .sending done job rest _ hw hjobs

/-- A batch goes on from a call that has ended. What was reported before, and what it is about to
report, is the progress of the jobs done. -/
theorem goOn_reaches (hw : w.total = jobs.size) (hjobs : jobs.toList = done ++ job :: rest)
    (outcome : CallOutcome Bool)
    (hs : s.2 = past ++ (acceptances w.defaults done ++ [(job.request w.defaults, outcome)]))
    (htold : told ++ unheard.map BatchProgress.report =
      (progressTo jobs.size done.length).map BatchProgress.report)
    (hearly : ∃ early : List BatchProgress, told = early.map BatchProgress.report) :
    (w.goOn remote.recording now unheard done job outcome rest s).Reaches w jobs past told := by
  refine w.goOn_induction (P := fun unheard done job outcome rest (s : σ × List Attempt) burst =>
      jobs.toList = done ++ job :: rest →
      s.2 = past ++ (acceptances w.defaults done ++ [(job.request w.defaults, outcome)]) →
      told ++ unheard.map BatchProgress.report =
        (progressTo jobs.size done.length).map BatchProgress.report →
      burst.Reaches w jobs past told)
    ?breaks ?refused ?last ?more unheard done job outcome rest s hjobs hs htold
  case breaks =>
    intro _ done job text _ _ _ hs _
    -- What the batch had not reported yet is lost with it.
    obtain ⟨early, rfl⟩ := hearly
    refine reaches_end [] rfl hs ?_
    rw [List.map_nil, List.append_nil]
    exact .ended _ _ _ (.brokenOff done job text early)
  case refused =>
    intro unheard done job answer error rest _ hr hjobs hs htold
    refine reaches_end unheard rfl hs ?_
    rw [htold]
    exact .ended _ _ _ (.halted done job rest answer error hjobs hr)
  case last =>
    intro unheard done job answer _ hr hjobs hs htold
    obtain rfl := refusal_eq_none_iff.mp hr
    refine reaches_end _ rfl hs ?_
    rw [told_next hw htold, ← acceptances_append, ← hjobs]
    exact .ended _ _ _ .completed
  case more =>
    intro unheard done job answer next rest s hr ih hjobs hs htold
    obtain rfl := refusal_eq_none_iff.mp hr
    have hnext : jobs.toList = (done ++ [job]) ++ next :: rest := by simp [hjobs]
    have htold' := told_next hw htold job
    rw [← acceptances_append] at hs
    exact send_reaches hw hnext hs htold' fun outcome s hs => ih _ _ outcome s hnext hs htold'

end BatchWork

/-- The work of a batch takes it from stage to stage. -/
theorem BatchWork.Stage.resume {a : Activity} {s : σ × List Attempt}
    (h : w.Stage jobs record told (some a)) (hs : s.2 = past ++ record) :
    (a.resume remote.recording now s).Reaches w jobs past told := by
  generalize hact : some a = act at h
  cases h with
  | unstarted hw =>
    obtain rfl := Option.some.inj hact
    obtain ⟨token, batch, defaults, total⟩ := w
    subst hw
    rw [Activity.resume, start_dispatch]
    have hjobs : jobs.toList = [] ++ jobs.head :: jobs.rest := rfl
    refine send_reaches rfl hjobs hs rfl fun outcome s hs => ?_
    exact goOn_reaches rfl hjobs outcome hs rfl ⟨[], rfl⟩
  | sending done job rest outcome hw hjobs =>
    obtain rfl := Option.some.inj hact
    exact goOn_reaches hw hjobs outcome hs (List.append_nil _) ⟨_, rfl⟩
  | ended => cases hact

/-! ## The end of a batch -/

theorem BatchProgress.report_injective : Function.Injective BatchProgress.report := by
  rintro ⟨_, _⟩ ⟨_, _⟩ h
  cases h
  rfl

/-- What a batch reports besides progress is its last report. -/
theorem BatchWork.Stage.closing {heard : List BatchProgress} {last : Report} {late : List Report}
    {act : Option Activity} (h : w.Stage jobs record told act)
    (htold : told = heard.map BatchProgress.report ++ last :: late)
    (hl : last.ends? = some .dispatch) : w.Closing jobs record heard last := by
  have other (ps : List BatchProgress) : last ∉ ps.map BatchProgress.report := by
    intro hmem
    obtain ⟨p, -, rfl⟩ := List.mem_map.mp hmem
    cases hl
  have inner : last ∈ heard.map BatchProgress.report ++ last :: late :=
    List.mem_append_right _ List.mem_cons_self
  cases h with
  | unstarted => simp at htold
  | sending done => exact absurd (htold ▸ inner) (other _)
  | ended _ heard' last' h =>
    obtain ⟨hheard, rfl, -⟩ := (List.append_cons_inj_of_notMem (other heard') (by simp)).mp htold
    rwa [← List.map_injective_iff.mpr BatchProgress.report_injective hheard]

namespace BatchWork.Closing

variable {heard : List BatchProgress} {batch : UInt64}

theorem of_completed {done : List Job}
    (h : w.Closing jobs record heard (.finished batch (.ok done))) :
    record = acceptances w.defaults jobs.toList ∧ heard = progressTo jobs.size jobs.size ∧
      done = jobs.toList := by
  cases h
  exact ⟨rfl, rfl, rfl⟩

theorem of_halted {failure : BatchFailure}
    (h : w.Closing jobs record heard (.finished batch (.error failure))) :
    ∃ done answer, jobs.toList = done ++ failure.failed :: failure.remaining ∧
      refusal? answer = some failure.error ∧ failure.completed = done.length ∧
      record = acceptances w.defaults done ++
        [(failure.failed.request w.defaults, .answers answer)] ∧
      heard = progressTo jobs.size done.length := by
  cases h with
  | halted done job rest answer error hjobs hr =>
    exact ⟨done, answer, hjobs, hr, rfl, rfl, rfl⟩

theorem of_brokenOff {text : String} (h : w.Closing jobs record heard (.panicked .dispatch text)) :
    ∃ a ∈ record, a.2 = .breaks text := by
  cases h
  exact ⟨_, List.mem_append_right _ List.mem_cons_self, rfl⟩

end BatchWork.Closing

/-- A batch reports nothing of other batches. -/
theorem BatchWork.Stage.told_of {r : Report} {act : Option Activity}
    (h : w.Stage jobs record told act) (hr : r ∈ told) :
    (∃ p : BatchProgress, r = p.report) ∨ (∃ result, r = .finished w.batch result) ∨
      ∃ text, r = .panicked .dispatch text := by
  have progress {ps : List BatchProgress} (hmem : r ∈ ps.map BatchProgress.report) :
      ∃ p : BatchProgress, r = p.report := by
    obtain ⟨p, -, hp⟩ := List.mem_map.mp hmem
    exact ⟨p, hp.symm⟩
  cases h with
  | unstarted => cases hr
  | sending => exact .inl (progress hr)
  | ended _ heard last h =>
    rcases List.mem_append.mp hr with hr | hr
    · exact .inl (progress hr)
    · obtain rfl := List.mem_singleton.mp hr
      cases h with
      | completed | halted => exact .inr (.inl ⟨_, rfl⟩)
      | brokenOff => exact .inr (.inr ⟨_, rfl⟩)

end

end FeedDesk
