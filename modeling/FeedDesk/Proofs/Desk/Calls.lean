import FeedDesk.Proofs.Desk.Order

/-!
# Calls under way

A view that handles only what its own tasks report, in the order of the reports, has one call to
the server under way at most. The call is for the session that is open: a load while the view
loads, a request to queue an item while it dispatches. A session that is closed makes no calls any
more.
-/
namespace FeedDesk

/-- The kind of work that makes a call. A view loads items and queues them; the other calls are not
its own. -/
def RemoteCall.kind : RemoteCall → TaskKind
  | .viewFeed _ | .previewFeed .. => .load
  | .appendUrl _ => .dispatch
  | .fetchFeeds | .loadConfig => .unrelated

def Activity.isCalling : Activity → Bool
  | .loading .. | .appending .. => true
  | .unstarted _ | .waiting .. => false

/-- A load that is not started yet is going to make a call that loads items. -/
def Activity.LoadsItems : Activity → Prop
  | .unstarted (.load _ call) => call.kind = .load
  | _ => True

/-- Whether a view waits for a call of a kind that was made for a session: the session is open, and
the call loads while the view is loading or queues an item while it is dispatching. -/
structure Dialog.AwaitsCall (d : Dialog) (token : SessionToken) (kind : TaskKind) : Prop where
  live : ∃ s, d.session = some s ∧ token = s.token
  phase : kind = .load ∧ d.phase = .loading ∨ kind = .dispatch ∧ d.phase = .dispatching

theorem FeedSource.kind_call (source : FeedSource) : source.call.kind = .load := by
  cases source <;> rfl

theorem Phase.eq_of_work {phase : Phase} {kind : TaskKind} (h : phase.work? = some kind) :
    kind = .load ∧ phase = .loading ∨ kind = .dispatch ∧ phase = .dispatching := by
  cases phase <;> cases h <;> simp

namespace Activity

variable {a : Activity}

theorem kind_of_isCalling (h : a.isCalling) : a.kind = .load ∨ a.kind = .dispatch := by
  cases a with
  | loading => exact .inl rfl
  | appending => exact .inr rfl
  | unstarted | waiting => cases h

theorem kind_of_made {call : RemoteCall} (h : call.kind = a.kind) :
    a.kind = .load ∨ a.kind = .dispatch := by
  have hne : a.kind ≠ .unrelated := by
    cases a with
    | unstarted task => cases task <;> simp [kind, Task.kind]
    | loading | waiting | appending => simp [kind]
  cases call with
  | viewFeed | previewFeed => exact .inl h.symm
  | appendUrl => exact .inr h.symm
  | fetchFeeds | loadConfig => exact absurd h.symm hne

end Activity

def Running.isWork (t : Running) : Bool := t.activity.kind = .load ∨ t.activity.kind = .dispatch

theorem Running.isWork_of_isCalling {t : Running} (h : t.activity.isCalling) : t.isWork :=
  decide_eq_true (Activity.kind_of_isCalling h)

/-! ## The calls of a task -/

structure Burst.CallsAs {σ : Type} (kind : TaskKind) (burst : Burst σ) : Prop where
  calls : ∀ call ∈ burst.calls, call.kind = kind
  next : ∀ t ∈ burst.next.toList, t.activity.LoadsItems

section
variable {σ : Type} {remote : Remote σ} {now : Nat}

namespace BatchWork

variable {w : BatchWork} {unheard : List BatchProgress} {done : List Job} {job : Job}
  {rest : List Job} {s : σ}

theorem send_callsAs
    (h : ∀ outcome s, (w.goOn remote now unheard done job outcome rest s).CallsAs .dispatch) :
    (w.send remote now unheard done job rest s).CallsAs .dispatch := by
  unfold send
  dsimp only
  split
  · have hgo := h (remote.append (job.request w.defaults) s).1.outcome
      (remote.append (job.request w.defaults) s).2
    exact ⟨List.forall_mem_cons.mpr ⟨rfl, hgo.calls⟩, hgo.next⟩
  · exact ⟨by simp [RemoteCall.kind], by simp [Activity.LoadsItems]⟩

theorem goOn_callsAs (w : BatchWork) (unheard : List BatchProgress) (done : List Job) (job : Job)
    (outcome : CallOutcome Bool) (rest : List Job) (s : σ) :
    (w.goOn remote now unheard done job outcome rest s).CallsAs .dispatch := by
  refine w.goOn_induction (P := fun _ _ _ _ _ _ burst => burst.CallsAs .dispatch)
    ?breaks ?refused ?last ?more unheard done job outcome rest s
  case breaks | refused | last =>
    intros
    exact ⟨by simp, by simp⟩
  case more =>
    intro _ _ _ _ _ _ _ _ ih
    exact send_callsAs fun outcome s => ih _ _ outcome s

end BatchWork

theorem Activity.resume_callsAs {a : Activity} (ha : a.LoadsItems) (s : σ) :
    (a.resume remote now s).CallsAs a.kind := by
  cases a with
  | unstarted task =>
    cases task with
    | load token call =>
      refine ⟨fun made hmade => ?_, by simp [resume, Task.start, LoadsItems]⟩
      rw [List.mem_singleton.mp hmade]
      exact ha
    | timer token batch delay =>
      exact ⟨by simp [resume, Task.start], by simp [resume, Task.start, LoadsItems]⟩
    | dispatch token batch defaults queue =>
      rw [resume, start_dispatch]
      exact BatchWork.send_callsAs fun outcome s => BatchWork.goOn_callsAs _ [] [] _ outcome _ s
  | loading | waiting => exact ⟨by simp [resume], by simp [resume]⟩
  | appending w done job outcome rest => exact w.goOn_callsAs [] done job outcome rest s

end

/-! ## The tasks of a view -/

/-- A view starts no load but with the call that loads the items of a feed. -/
theorem Transition.loadsItems {now : Int64} {d : Dialog} {op : Operation} {r : Reply}
    (h : Transition now d op r) {task : Task} (ht : .start task ∈ r.turn.effects) :
    (Activity.unstarted task).LoadsItems := by
  cases h with
  | refused | unopened | unfailed | unheeded => cases ht
  | unchecked | progressed | timeElapsed => simp at ht
  | opened source =>
    obtain rfl : task = .load d.lastToken.next source.call := by
      simpa [FeedSource.opening] using ht
    exact source.kind_call
  | reopened source s =>
    obtain rfl : task = .load d.lastToken.next source.call := by
      simpa [FeedSource.opening, not_started_closing] using ht
    exact source.kind_call
  | cancelled s => exact absurd ht (not_started_closing s)
  | loadFailed | completed | halted | brokenOff =>
    simp [not_started_closing, not_started_signOff] at ht
  | filtered | renamed => exact absurd ht (not_started_refresh _ now)
  | fetched _ queue | retried failure =>
    simp only [Dialog.batchEffects, List.mem_cons, List.not_mem_nil, or_false, reduceCtorEq,
      Effect.start.injEq, false_or] at ht
    rcases ht with rfl | rfl <;> trivial
  | loaded => simp [Dialog.tableEffects] at ht

/-! ## What is under way -/

namespace Dialog.Exclusive

variable {d : Dialog} {tasks : List Running} {queue : List Event}

theorem awaitsCall (hx : d.Exclusive tasks queue) {task : Running} (ht : task ∈ tasks)
    (hk : task.activity.kind = .load ∨ task.activity.kind = .dispatch) :
    d.AwaitsCall task.activity.token task.activity.kind := by
  obtain ⟨s, hs, htoken, hw⟩ := hx.awaits ht hk
  exact ⟨⟨s, hs, htoken⟩, Phase.eq_of_work hw⟩

/-- There is one load or one batch at most. -/
theorem countP_isWork_le_one (hx : d.Exclusive tasks queue) : tasks.countP Running.isWork ≤ 1 := by
  rcases Nat.eq_zero_or_pos (tasks.countP Running.isWork) with h | h
  · omega
  · obtain ⟨task, hmem, htask⟩ := List.countP_pos_iff.mp h
    obtain ⟨s, hs, -, hw⟩ := hx.awaits hmem (of_decide_eq_true htask)
    have hsingle := hx.single s hs _ (of_decide_eq_true htask)
    rw [if_pos hw, pending] at hsingle
    -- All of them are the work that the phase waits for, of which there is one.
    have hdoes : tasks.countP Running.isWork ≤
        tasks.countP (·.does s.token task.activity.kind) := by
      refine List.countP_mono_left fun t ht hwork => ?_
      obtain ⟨s', hs', htoken, hw'⟩ := hx.awaits ht (of_decide_eq_true hwork)
      obtain rfl : s = s' := Option.some.inj (hs.symm.trans hs')
      simp [Running.does, htoken, Option.some.inj (hw'.symm.trans hw)]
    omega

theorem countP_le_one (hx : d.Exclusive tasks queue) {p : Running → Bool}
    (hp : ∀ t, p t → t.isWork) : tasks.countP p ≤ 1 :=
  Nat.le_trans (List.countP_mono_left fun t _ => hp t) hx.countP_isWork_le_one

theorem not_calling_beside (hx : d.Exclusive tasks queue) {index : Nat} {task : Running}
    (hget : tasks[index]? = some task) (hwork : task.isWork) :
    ∀ t ∈ tasks.eraseIdx index, ¬ t.activity.isCalling := by
  have hone := hx.countP_isWork_le_one
  rw [← (perm_eraseIdx hget).countP_eq, List.countP_cons, if_pos hwork] at hone
  have hnone : (tasks.eraseIdx index).countP Running.isWork = 0 := by omega
  intro t ht hcalls
  exact List.countP_eq_zero.mp hnone t ht (Running.isWork_of_isCalling hcalls)

end Dialog.Exclusive

/-! ## Runs of a desk -/

namespace Desk

variable {σ : Type} {remote : Remote σ} {desk : Desk σ}

def calling (desk : Desk σ) : List Running := desk.tasks.filter (·.activity.isCalling)

/-- The tasks of a desk that send a batch, whether or not they wait for the answer to a call. -/
def batches (desk : Desk σ) : List Running := desk.tasks.filter (·.activity.kind = .dispatch)

/-- A desk has one call under way at most, and its view waits for it. The same holds at the moment
that a call is made by a task that goes on: no other task waits for the answer to a call then, and
those that the task has made before are over. Nothing else makes calls; settling consists of events
that are handled and tasks that go on. -/
structure CallsSingly (remote : Remote σ) (desk : Desk σ) : Prop where
  one : desk.calling.length ≤ 1
  awaited : ∀ t ∈ desk.calling, desk.dialog.AwaitsCall t.activity.token t.activity.kind
  batch : desk.batches.length ≤ 1
  made : ∀ index, ∃ calls, (desk.goOn remote index).remoteCalls = desk.remoteCalls ++ calls ∧
    ∀ call ∈ calls, ∃ task, desk.tasks[index]? = some task ∧
      (∀ t ∈ desk.tasks.eraseIdx index, ¬ t.activity.isCalling) ∧
      desk.dialog.AwaitsCall task.activity.token call.kind
  silent : ∀ m, (∀ index, m ≠ .goOn index) → m ≠ .settle →
    (desk.move remote m).remoteCalls = desk.remoteCalls

/-- A desk whose view has a session as long as it is open, and whose loads that are not started yet
are going to load items. -/
structure LoadsItems (desk : Desk σ) : Prop where
  coherent : desk.dialog.Coherent
  loads : ∀ t ∈ desk.tasks, t.activity.LoadsItems

theorem loadsItems_of_transition {op : Operation} {r : Reply} {tasks : List Running} {time : Nat}
    {now : Int64} {d : Dialog} (ht : Transition now d op r)
    (h : ∀ t ∈ tasks, t.activity.LoadsItems) :
    ∀ t ∈ r.turn.effects.foldl (tasksAfter time) tasks, t.activity.LoadsItems := by
  intro t hmem
  rcases mem_foldl_tasksAfter hmem with hmem | ⟨task, hstart, rfl⟩
  · exact h t hmem
  · exact ht.loadsItems hstart

theorem LoadsItems.after (h : desk.LoadsItems) (op : Operation) : (desk.after op).LoadsItems := by
  obtain ⟨r, ht, -, heq⟩ := after_transition h.coherent op
  rw [heq]
  exact ⟨ht.coherent h.coherent, loadsItems_of_transition ht h.loads⟩

theorem LoadsItems.handleNext (h : desk.LoadsItems) : desk.handleNext.LoadsItems := by
  rcases handleNext_transition h.coherent with ⟨-, heq⟩ | ⟨event, rest, r, -, ht, heq⟩
  · rw [heq]
    exact h
  · rw [heq]
    exact ⟨ht.coherent h.coherent, loadsItems_of_transition ht h.loads⟩

theorem LoadsItems.goOn (h : desk.LoadsItems) (index : Nat) :
    (desk.goOn remote index).LoadsItems := by
  rcases goOn_resume remote desk index with ⟨-, heq⟩ | ⟨task, time, hget, heq⟩
  · rw [heq]
    exact h
  · rw [heq]
    refine ⟨h.coherent, fun t hmem => ?_⟩
    rcases List.mem_append.mp hmem with hmem | hmem
    · exact h.loads t (List.mem_of_mem_eraseIdx hmem)
    · have hloads := h.loads task (List.mem_of_getElem? hget)
      exact (Activity.resume_callsAs hloads desk.remote).next t hmem

theorem LoadsItems.move (h : desk.LoadsItems) (m : Move) : (desk.move remote m).LoadsItems := by
  cases m with
  | operate op => exact h.after op
  | handleNext => exact h.handleNext
  | goOn index => exact h.goOn index
  | settle => exact settle_induction (fun _ h => h.handleNext) (fun _ i h => h.goOn i) h
  | dismissNext | pass | stopListening => exact ⟨h.coherent, h.loads⟩

theorem LoadsItems.moves (h : desk.LoadsItems) (ms : List Move) :
    (desk.moves remote ms).LoadsItems := by
  induction ms generalizing desk with
  | nil => exact h
  | cons m ms ih => exact ih (h.move m)

/-- Calls are made only by tasks that go on. -/
theorem move_remoteCalls {m : Move} (hgo : ∀ index, m ≠ .goOn index) (hsettle : m ≠ .settle) :
    (desk.move remote m).remoteCalls = desk.remoteCalls := by
  have hafter (desk : Desk σ) (op : Operation) :
      (desk.after op).remoteCalls = desk.remoteCalls := by
    rw [after, perform, follow_eq]
  cases m with
  | operate op => exact hafter desk op
  | handleNext =>
    cases hq : desk.queue with
    | nil => simp only [move, handleNext, hq]
    | cons event rest =>
      simp only [move, handleNext, hq]
      exact hafter _ _
  | goOn index => exact absurd rfl (hgo index)
  | settle => exact absurd rfl hsettle
  | dismissNext | pass | stopListening => rfl

theorem Exclusive.callsSingly (hx : desk.Exclusive) (hl : desk.LoadsItems) :
    desk.CallsSingly remote where
  one := by
    rw [calling, ← List.countP_eq_length_filter]
    exact Dialog.Exclusive.countP_le_one hx fun _ h => Running.isWork_of_isCalling h
  awaited t ht := by
    obtain ⟨hmem, hcalls⟩ := List.mem_filter.mp ht
    exact Dialog.Exclusive.awaitsCall hx hmem (Activity.kind_of_isCalling hcalls)
  batch := by
    rw [batches, ← List.countP_eq_length_filter]
    exact Dialog.Exclusive.countP_le_one hx fun _ h => decide_eq_true (.inr (of_decide_eq_true h))
  made index := by
    rcases goOn_resume remote desk index with ⟨-, heq⟩ | ⟨task, time, hget, heq⟩
    · exact ⟨[], by rw [heq, List.append_nil], by simp⟩
    · refine ⟨_, congrArg remoteCalls heq, fun call hcall => ?_⟩
      have hmem : task ∈ desk.tasks := List.mem_of_getElem? hget
      have hkind : call.kind = task.activity.kind :=
        (Activity.resume_callsAs (hl.loads task hmem) _).calls call hcall
      have hwork := Activity.kind_of_made hkind
      have hbeside := Dialog.Exclusive.not_calling_beside hx hget (decide_eq_true hwork)
      refine ⟨task, hget, hbeside, ?_⟩
      rw [hkind]
      exact Dialog.Exclusive.awaitsCall hx hmem hwork
  silent _ hgo hsettle := move_remoteCalls hgo hsettle

/-- After any run of a desk by itself, whatever the server answers and however long it takes, one
call at most is under way. Tokens have 64 bits, so a run in which a token comes again while an event
of its first session still waits is left out; there is none with fewer than `2 ^ 64` openings. -/
theorem one_call_under_way (remote : Remote σ) (settings : DialogSettings) (wallClock : Int64)
    (s : σ) (ms : List Move) (hown : ∀ m ∈ ms, m.Own)
    (hfresh : (create settings wallClock s).Fresh remote ms) :
    ((create settings wallClock s).moves remote ms).CallsSingly remote := by
  have hx : (create settings wallClock s).Exclusive := exclusive_create settings wallClock s
  have hl : (create settings wallClock s).LoadsItems :=
    ⟨Dialog.coherent_create settings, by simp [create]⟩
  exact (hx.moves hown hfresh).callsSingly (hl.moves ms)

def sendingRun : List Move :=
  [.operate (.openOn default), .goOn 0, .operate (.openOn default), .settle,
    .operate (.fetch ["a"]), .goOn 1]

theorem request_under_way :
    ((create ⟨25, 300, 0⟩ 0 true).moves (.wavering [{ url := "a" }]) sendingRun).calling.length =
        1 ∧
      ((create ⟨25, 300, 0⟩ 0 true).moves (.wavering [{ url := "a" }]) sendingRun).CallsSingly
        (.wavering [{ url := "a" }]) := by
  have hown : ∀ m ∈ sendingRun, m.Own := by simp [sendingRun, Move.Own]
  have hfresh : (create ⟨25, 300, 0⟩ 0 true).Fresh (.wavering [{ url := "a" }]) sendingRun :=
    (orderly_create ⟨25, 300, 0⟩ 0 true).fresh hown (by decide)
  exact ⟨rfl, one_call_under_way (.wavering [{ url := "a" }]) ⟨25, 300, 0⟩ 0 true sendingRun hown
    hfresh⟩

end Desk

end FeedDesk
