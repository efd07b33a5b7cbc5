import FeedDesk.Proofs.Desk.Settling
import FeedDesk.Proofs.Desk.Strays
import FeedDesk.Proofs.Dialog.Mirror
import FeedDesk.Proofs.Dialog.Renaming
import Mathlib.Data.List.InsertIdx

/-!
# A reopened view is like a new one

A view that is opened again behaves as one that was never opened before: the same is returned, the
host and the server hear the same, and only the tokens are later ones. Work of earlier sessions is
abandoned when the view is closed, and what such work has reported already is passed over whenever
it is handled.
-/
namespace FeedDesk

/-! ## Work under later tokens -/

/-- A batch being sent, under a later token. -/
def BatchWork.later (k : UInt64) (w : BatchWork) : BatchWork :=
  { w with token := w.token.later k }

def Activity.later (k : UInt64) : Activity → Activity
  | .unstarted task => .unstarted (task.later k)
  | .loading token outcome => .loading (token.later k) outcome
  | .waiting token batch => .waiting (token.later k) batch
  | .appending w done job outcome rest => .appending (w.later k) done job outcome rest

def Running.later (k : UInt64) (t : Running) : Running := ⟨t.due, t.activity.later k⟩

def Burst.later {σ : Type} (k : UInt64) (burst : Burst σ) : Burst σ :=
  ⟨burst.calls, burst.events.map (Event.later k), burst.next.map (Running.later k), burst.remote⟩

def Move.later (k : UInt64) : Move → Move
  | .operate op => .operate (op.later k)
  | m => m

def Returned.later (k : UInt64) : Returned → Returned
  | .opened token => .opened (token.later k)
  | .answered outcome => .answered outcome

section
variable {σ : Type} {remote : Remote σ} {now : Nat} {k : UInt64}

namespace BatchWork

variable {w : BatchWork} {unheard : List BatchProgress} {done : List Job} {job : Job}
  {rest : List Job} {s : σ}

theorem progressEvents_later (w : BatchWork) (unheard : List BatchProgress) :
    (w.later k).progressEvents unheard = (w.progressEvents unheard).map (Event.later k) := by
  rw [progressEvents, progressEvents, List.map_map]
  rfl

theorem send_later
    (h : ∀ outcome s, (w.later k).goOn remote now unheard done job outcome rest s =
      (w.goOn remote now unheard done job outcome rest s).later k) :
    (w.later k).send remote now unheard done job rest s =
      (w.send remote now unheard done job rest s).later k := by
  have hdefaults : (w.later k).defaults = w.defaults := rfl
  unfold send
  dsimp only
  rw [hdefaults, h, progressEvents_later]
  split <;> rfl

theorem goOn_later (w : BatchWork) (unheard : List BatchProgress) (done : List Job) (job : Job)
    (outcome : CallOutcome Bool) (rest : List Job) (s : σ) :
    (w.later k).goOn remote now unheard done job outcome rest s =
      (w.goOn remote now unheard done job outcome rest s).later k := by
  refine w.goOn_induction (P := fun unheard done job outcome rest s burst =>
      (w.later k).goOn remote now unheard done job outcome rest s = burst.later k)
    ?breaks ?refused ?last ?more unheard done job outcome rest s
  case breaks =>
    intro _ _ _ text _ _
    rw [goOn_breaks]
    rfl
  case refused =>
    intro _ _ _ answer error _ _ h
    rw [goOn_refused h, progressEvents_later]
    simp only [Burst.later, List.map_append]
    rfl
  case last =>
    intro _ _ _ answer _ h
    rw [goOn_last h, progressEvents_later]
    simp only [Burst.later, List.map_append]
    rfl
  case more =>
    intro _ _ _ answer next _ _ h ih
    rw [goOn_more h]
    exact send_later fun outcome s => ih _ _ outcome s

end BatchWork

/-- A task under a later token does what the task does. -/
theorem Activity.resume_later (a : Activity) (s : σ) :
    (a.later k).resume remote now s = (a.resume remote now s).later k := by
  cases a with
  | unstarted task =>
    cases task with
    | load | timer => rfl
    | dispatch token batch defaults queue =>
      rw [resume, start_dispatch]
      exact (start_dispatch ..).trans <|
        BatchWork.send_later (w := ⟨token, batch, defaults, queue.size⟩)
          fun outcome s => BatchWork.goOn_later ..
  | loading token outcome => cases outcome <;> rfl
  | waiting => rfl
  | appending w done job outcome rest => exact w.goOn_later [] done job outcome rest s

theorem Running.weight_later (t : Running) :
    (t.later k).activity.weight = t.activity.weight := by
  obtain ⟨_, activity⟩ := t
  cases activity with
  | unstarted task => cases task <;> rfl
  | loading | waiting | appending => rfl

@[simp] theorem Running.later_zero (t : Running) : t.later 0 = t := by
  obtain ⟨due, activity⟩ := t
  cases activity with
  | unstarted task => cases task <;> simp [later, Activity.later, Task.later]
  | loading | waiting | appending => simp [later, Activity.later, BatchWork.later]

@[simp] theorem Move.later_zero (m : Move) : m.later 0 = m := by
  cases m with
  | operate op => cases op <;> simp [later, Operation.later]
  | handleNext | dismissNext | goOn | pass | settle | stopListening => rfl

theorem foldl_tasksAfter_later (time : Nat) (effects : List Effect) (tasks : List Running) :
    (effects.map (Effect.later k)).foldl (tasksAfter time) (tasks.map (Running.later k)) =
      (effects.foldl (tasksAfter time) tasks).map (Running.later k) := by
  induction effects generalizing tasks with
  | nil => rfl
  | cons effect effects ih =>
    have hstep : tasksAfter time (tasks.map (Running.later k)) (effect.later k) =
        (tasksAfter time tasks effect).map (Running.later k) := by
      cases effect with
      | host call => rfl
      | start task => simp [tasksAfter, Effect.later, Running.later, Activity.later]
      | abandonTasks => rfl
    rw [List.map_cons, List.foldl_cons, List.foldl_cons, hstep, ih]

theorem Desk.takeEarliest_later (tasks : List Running) :
    takeEarliest (tasks.map (Running.later k)) =
      (takeEarliest tasks).map fun found => (found.1.later k, found.2.map (Running.later k)) := by
  induction tasks with
  | nil => rfl
  | cons task rest ih =>
    rw [List.map_cons, takeEarliest, takeEarliest, ih]
    cases takeEarliest rest with
    | none => rfl
    | some found =>
      simp only [Option.map_some]
      have hdue (t : Running) : (t.later k).due = t.due := rfl
      rw [hdue, hdue]
      split <;> rfl

end

/-- A view that is closed after a step has nothing under way, if that was so before. -/
theorem Transition.abandons {now : Int64} {d : Dialog} {op : Operation} {r : Reply}
    (h : Transition now d op r) {tasks : List Running} (ht : d.phase = .closed → tasks = [])
    (time : Nat) (hp : r.turn.dialog.phase = .closed) :
    r.turn.effects.foldl (tasksAfter time) tasks = [] := by
  cases h with
  | refused | unopened | unchecked | unfailed | unheeded | progressed => exact ht hp
  | cancelled | loadFailed | completed => simp [tasksAfter]
  | filtered _ _ hready | renamed _ _ hready =>
    rw [Dialog.refresh_phase] at hp
    simp [Dialog.within, hready] at hp
  | opened | reopened | fetched | retried | loaded | timeElapsed | halted | brokenOff =>
    simp [Dialog.within, Dialog.entered] at hp

/-- Whether a move takes events from the queue. -/
def Move.Takes : Move → Prop
  | .handleNext | .dismissNext | .settle => True
  | _ => False

namespace Desk

variable {σ : Type} {remote : Remote σ} {k : UInt64} {past past' desk other : Desk σ}
  {late : List Event}

/-- A desk that has come from `past` to where another has come from `past'`, with its view and its
work under later tokens. In its queue, some events wait before those that the other has. -/
structure Like (k : UInt64) (past past' : Desk σ) (late : List Event) (desk other : Desk σ) :
    Prop where
  dialog : desk.dialog = other.dialog.later k
  wallClock : desk.wallClock = other.wallClock
  remote : desk.remote = other.remote
  time : desk.time = other.time
  listening : desk.listening = other.listening
  tasks : desk.tasks = other.tasks.map (Running.later k)
  queue : desk.queue = late ++ other.queue.map (Event.later k)
  hostCalls : ∃ since, desk.hostCalls = past.hostCalls ++ since ∧
    other.hostCalls = past'.hostCalls ++ since
  remoteCalls : ∃ since, desk.remoteCalls = past.remoteCalls ++ since ∧
    other.remoteCalls = past'.remoteCalls ++ since

/-- Whether an event is for another session than the open one. -/
def PassesOver (desk : Desk σ) (event : Event) : Prop :=
  ∀ s, desk.dialog.session = some s → s.token ≠ event.token

theorem PassesOver.not_heeds {event : Event} (h : desk.PassesOver event) :
    ¬ desk.dialog.Heeds event :=
  fun ⟨s, hs, htoken, _⟩ => h s hs htoken

theorem settleWithin_of_idle (h : ¬ desk.dialog.isBusy) (fuel : Nat) :
    desk.settleWithin remote fuel = desk := by
  cases fuel with
  | zero => rfl
  | succ fuel => simp [settleWithin, h]

namespace Like

theorem perform (h : Like k past past' late desk other) (op : Operation) :
    desk.dialog.perform desk.wallClock (op.later k) =
      (other.dialog.perform other.wallClock op).later k := by
  rw [h.dialog, h.wallClock, Dialog.perform_later]

theorem after (h : Like k past past' late desk other) (op : Operation) :
    Like k past past' late (desk.after (op.later k)) (other.after op) := by
  rw [Desk.after, Desk.after, Desk.perform, Desk.perform, h.perform op, follow_eq, follow_eq]
  obtain ⟨since, hdesk, hother⟩ := h.hostCalls
  refine ⟨rfl, h.wallClock, h.remote, h.time, h.listening, ?_, h.queue, ?_, h.remoteCalls⟩
  · simp only [Reply.later, Turn.later, h.tasks, h.time, foldl_tasksAfter_later]
  · refine ⟨since ++ hostCallsOf (other.dialog.perform other.wallClock op).turn.effects, ?_, ?_⟩
    · simp [Reply.later, Turn.later, hdesk]
    · simp [hother]

/-- Both desks handle the event that waits first, or neither has one. -/
theorem handleNext (h : Like k past past' [] desk other) :
    Like k past past' [] desk.handleNext other.handleNext := by
  have hqueue : desk.queue = other.queue.map (Event.later k) := h.queue
  unfold Desk.handleNext
  rw [hqueue]
  cases other.queue with
  | nil => exact h
  | cons event rest =>
    have hrest : Like k past past' [] { desk with queue := rest.map (Event.later k) }
        { other with queue := rest } := { h with queue := rfl }
    exact hrest.after (.deliver event)

theorem handleLate {event : Event} (h : Like k past past' (event :: late) desk other)
    (hpass : desk.PassesOver event) : Like k past past' late desk.handleNext other := by
  have hunheeded : ¬ ({ desk with queue := late ++ other.queue.map (Event.later k) } :
      Desk σ).dialog.Heeds event := hpass.not_heeds
  unfold Desk.handleNext
  rw [h.queue, List.cons_append]
  simp only [after_unheeded _ hunheeded]
  exact { h with queue := rfl }

theorem dismissNext (h : Like k past past' [] desk other) :
    Like k past past' [] desk.dismissNext other.dismissNext := by
  have hqueue : desk.queue = other.queue.map (Event.later k) := h.queue
  refine { h with queue := ?_ }
  simp only [Desk.dismissNext, hqueue, List.map_tail, List.nil_append]

theorem dismissLate {event : Event} (h : Like k past past' (event :: late) desk other) :
    Like k past past' late desk.dismissNext other := by
  refine { h with queue := ?_ }
  simp only [Desk.dismissNext, h.queue, List.cons_append, List.tail_cons]

theorem resume (h : Like k past past' late desk other) (task : Running) (others : List Running) :
    Like k past past' late (desk.resume remote (task.later k) (others.map (Running.later k)))
      (other.resume remote task others) := by
  have hburst : (task.later k).activity.resume remote (max desk.time (task.later k).due)
      desk.remote =
        (task.activity.resume remote (max other.time task.due) other.remote).later k := by
    rw [h.time, h.remote]
    exact task.activity.resume_later other.remote
  obtain ⟨since, hdesk, hother⟩ := h.remoteCalls
  unfold Desk.resume
  dsimp only
  rw [hburst]
  refine ⟨h.dialog, h.wallClock, rfl, ?_, h.listening, ?_, ?_, h.hostCalls, ?_⟩
  · simp only [absorb, h.time, Running.later]
  · simp only [absorb, Burst.later, List.map_append]
    cases (task.activity.resume remote (max other.time task.due) other.remote).next <;> rfl
  · simp only [absorb, h.listening, h.queue, Burst.later]
    split <;> simp
  · exact ⟨since ++ (task.activity.resume remote (max other.time task.due) other.remote).calls,
      by simp [absorb, Burst.later, hdesk], by simp [absorb, hother]⟩

theorem goOn (h : Like k past past' late desk other) (index : Nat) :
    Like k past past' late (desk.goOn remote index) (other.goOn remote index) := by
  unfold Desk.goOn
  rw [h.tasks, List.getElem?_map, List.eraseIdx_map]
  cases other.tasks[index]? with
  | none => exact h
  | some task => exact h.resume task _

theorem settleWithin (h : Like k past past' [] desk other) (fuel : Nat) :
    Like k past past' [] (desk.settleWithin remote fuel) (other.settleWithin remote fuel) := by
  induction fuel generalizing desk other with
  | zero => exact h
  | succ fuel ih =>
    have hbusy : desk.dialog.isBusy = other.dialog.isBusy := by rw [h.dialog]; rfl
    have hempty : desk.queue.isEmpty = other.queue.isEmpty := by rw [h.queue]; simp
    rw [Desk.settleWithin, Desk.settleWithin, hbusy, hempty, h.listening, h.tasks,
      takeEarliest_later]
    split
    · exact h
    · split
      · exact ih h.handleNext
      · split
        · exact h
        · cases takeEarliest other.tasks with
          | none => exact h
          | some found => exact ih (h.resume found.1 found.2)

theorem workload (h : Like k past past' late desk other) :
    desk.workload = late.length + other.workload := by
  have hweigh : weigh (other.tasks.map (Running.later k)) = weigh other.tasks := by
    simp only [weigh, List.foldr_map, Running.weight_later]
  rw [workload_eq, workload_eq, h.tasks, hweigh, h.queue, List.length_append, List.length_map]
  omega

/-- Settling handles the events of earlier sessions first, if it handles any. -/
theorem settle (h : Like k past past' late desk other) (hpass : ∀ e ∈ late, desk.PassesOver e) :
    Like k past past' (if desk.dialog.isBusy then [] else late) (desk.settle remote)
      (other.settle remote) := by
  rw [Desk.settle, Desk.settle, h.workload]
  generalize other.workload = fuel
  by_cases hbusy : desk.dialog.isBusy
  · rw [if_pos hbusy]
    induction late generalizing desk with
    | nil =>
      rw [List.length_nil, Nat.zero_add]
      exact h.settleWithin fuel
    | cons event late ih =>
      obtain ⟨hevent, hlate⟩ := List.forall_mem_cons.mp hpass
      have hnext : Like k past past' late desk.handleNext other := h.handleLate hevent
      have hsame : desk.handleNext.dialog = desk.dialog := hnext.dialog.trans h.dialog.symm
      have hempty : desk.queue.isEmpty = false := by simp [h.queue]
      rw [List.length_cons, Nat.add_right_comm, Desk.settleWithin, hbusy, hempty]
      refine ih hnext ?_ ?_
      · exact fun e he s hs => hlate e he s (hsame ▸ hs)
      · rw [hsame]
        exact hbusy
  · have hidle : ¬ other.dialog.isBusy := by
      rw [h.dialog] at hbusy
      exact hbusy
    rw [if_neg hbusy, settleWithin_of_idle hbusy, settleWithin_of_idle hidle]
    exact h

theorem returned (h : Like k past past' late desk other) (m : Move) :
    desk.returned (m.later k) = (other.returned m).map (Returned.later k) := by
  cases m with
  | operate op =>
    have houtcome : (desk.perform (op.later k)).1 = (other.perform op).1 := by
      rw [Desk.perform, Desk.perform, h.perform op]
      rfl
    cases op with
    | openOn source =>
      have hlast : (desk.after (.openOn source)).dialog.lastToken =
          (other.after (.openOn source)).dialog.lastToken.later k :=
        congrArg Dialog.lastToken (h.after (.openOn source)).dialog
      exact congrArg (fun token => [Returned.opened token]) hlast
    | deliver => rfl
    | setFilter | setNaming | fetch | retry | cancel =>
      exact congrArg (fun outcome => [Returned.answered outcome]) houtcome
  | handleNext | dismissNext | goOn | pass | settle | stopListening => rfl

/-- A move that takes no event, or that finds none of earlier sessions, is made at both desks. -/
theorem move (h : Like k past past' late desk other) (m : Move) (hm : late = [] ∨ ¬ m.Takes) :
    Like k past past' late (desk.move remote (m.later k)) (other.move remote m) := by
  cases m with
  | operate op => exact h.after op
  | goOn index => exact h.goOn index
  | pass span wallClock =>
    refine { h with time := ?_, wallClock := rfl }
    exact congrArg (· + span) h.time
  | stopListening => exact { h with listening := rfl }
  | handleNext =>
    obtain rfl := hm.resolve_right (fun hn => hn trivial)
    exact h.handleNext
  | dismissNext =>
    obtain rfl := hm.resolve_right (fun hn => hn trivial)
    exact h.dismissNext
  | settle =>
    obtain rfl := hm.resolve_right (fun hn => hn trivial)
    have hsettle : Like k past past' (if desk.dialog.isBusy then [] else []) (desk.settle remote)
        (other.settle remote) := h.settle (List.forall_mem_nil _)
    rwa [ite_self] at hsettle

theorem moves (h : Like k past past' [] desk other) (ms : List Move) :
    Like k past past' [] (desk.moves remote (ms.map (Move.later k))) (other.moves remote ms) := by
  induction ms generalizing desk other with
  | nil => exact h
  | cons m ms ih => exact ih (h.move m (.inl rfl))

end Like

/-! ## Runs -/

/-- `ms` is the run `new` at a desk where events of earlier sessions wait before all others. Each of
them is handled while another session is open, or is thrown away. -/
inductive Delays (remote : Remote σ) (k : UInt64) :
    List Event → Desk σ → List Move → List Move → Prop
  | done (late : List Event) (desk : Desk σ) : Delays remote k late desk [] []
  | both {late : List Event} {desk : Desk σ} (m : Move) {ms new : List Move}
      (hm : late = [] ∨ ¬ m.Takes)
      (h : Delays remote k late (desk.move remote (m.later k)) ms new) :
    Delays remote k late desk (m.later k :: ms) (m :: new)
  | settle {late : List Event} {desk : Desk σ} {ms new : List Move}
      (hpass : ∀ e ∈ late, desk.PassesOver e)
      (h : Delays remote k (if desk.dialog.isBusy then [] else late) (desk.settle remote) ms new) :
    Delays remote k late desk (.settle :: ms) (.settle :: new)
  | handle {event : Event} {late : List Event} {desk : Desk σ} {ms new : List Move}
      (hpass : desk.PassesOver event) (h : Delays remote k late desk.handleNext ms new) :
    Delays remote k (event :: late) desk (.handleNext :: ms) new
  | dismiss {event : Event} {late : List Event} {desk : Desk σ} {ms new : List Move}
      (h : Delays remote k late desk.dismissNext ms new) :
    Delays remote k (event :: late) desk (.dismissNext :: ms) new

theorem Like.delayed {ms new : List Move} (h : Like k past past' late desk other)
    (hd : Delays remote k late desk ms new) :
    desk.results remote ms = (other.results remote new).map (Returned.later k) ∧
      ∃ late', Like k past past' late' (desk.moves remote ms) (other.moves remote new) := by
  induction hd generalizing other with
  | done late desk => exact ⟨rfl, late, h⟩
  | both m hm _ ih =>
    obtain ⟨hresults, hlike⟩ := ih (h.move m hm)
    refine ⟨?_, hlike⟩
    rw [results, results, hresults, h.returned m, List.map_append]
  | settle hpass _ ih => exact ih (h.settle hpass)
  | handle hpass _ ih => exact ih (h.handleLate hpass)
  | dismiss _ ih => exact ih h.dismissLate

/-! ## Opening again -/

/-- A desk with a view that was never opened, in the place of another desk. -/
def renewed (settings : DialogSettings) (desk : Desk σ) : Desk σ :=
  { create settings desk.wallClock desk.remote with time := desk.time, listening := desk.listening }

theorem follow_andThen (desk : Desk σ) (turn : Turn) (next : Dialog → Turn) :
    desk.follow (turn.andThen next) = (desk.follow turn).follow (next turn.dialog) := by
  simp only [follow_eq, Turn.andThen, hostCallsOf_append, List.append_assoc, List.foldl_append,
    Screen.applyAll]

/-- To open a view again is to close it first. -/
theorem after_openOn (hc : desk.dialog.Coherent) (source : FeedSource) :
    desk.after (.openOn source) = (desk.after .cancel).after (.openOn source) := by
  have hclosed : (desk.after .cancel).dialog.close = .idle (desk.after .cancel).dialog := by
    refine Dialog.close_of_closed ?_
    rw [after_cancel_dialog hc]
    rfl
  have hopen : (desk.after .cancel).dialog.openOn source =
      (desk.after .cancel).dialog.beginSession source := by
    rw [Dialog.openOn, hclosed]
    rfl
  calc desk.after (.openOn source)
      = desk.follow (desk.dialog.close.andThen (Dialog.beginSession source)) := rfl
    _ = (desk.after .cancel).follow (desk.dialog.close.dialog.beginSession source) :=
      desk.follow_andThen ..
    _ = (desk.after .cancel).follow ((desk.after .cancel).dialog.openOn source) := by
      rw [hopen, after_dialog]
      rfl

/-- A desk with some settings, at which nothing is under way while its view is closed. -/
structure Tidy (settings : DialogSettings) (desk : Desk σ) : Prop where
  consistent : desk.dialog.Consistent
  settings_eq : desk.dialog.settings = settings
  abandoned : desk.dialog.phase = .closed → desk.tasks = []

namespace Tidy

variable {settings : DialogSettings}

theorem create (settings : DialogSettings) (wallClock : Int64) (s : σ) :
    (create settings wallClock s).Tidy settings :=
  ⟨Dialog.consistent_create settings, rfl, fun _ => rfl⟩

theorem after (h : desk.Tidy settings) (op : Operation) : (desk.after op).Tidy settings := by
  obtain ⟨r, ht, -, heq⟩ := after_transition h.consistent.coherent op
  rw [heq]
  exact ⟨ht.consistent h.consistent, ht.settings_eq.trans h.settings_eq,
    ht.abandons h.abandoned desk.time⟩

theorem handleNext (h : desk.Tidy settings) : desk.handleNext.Tidy settings := by
  unfold Desk.handleNext
  split
  · exact h
  next event rest _ =>
    have hrest : ({ desk with queue := rest } : Desk σ).Tidy settings := ⟨h.1, h.2, h.3⟩
    exact hrest.after (.deliver event)

theorem goOn (h : desk.Tidy settings) (index : Nat) : (desk.goOn remote index).Tidy settings := by
  have hdialog := goOn_dialog remote desk index
  refine ⟨hdialog ▸ h.consistent, hdialog ▸ h.settings_eq, fun hp => ?_⟩
  have hnone := h.abandoned (hdialog ▸ hp)
  simp only [Desk.goOn, hnone, List.getElem?_nil]

theorem move (h : desk.Tidy settings) (m : Move) : (desk.move remote m).Tidy settings := by
  cases m with
  | operate op => exact h.after op
  | handleNext => exact h.handleNext
  | goOn index => exact h.goOn index
  | settle => exact settle_induction (fun _ h => h.handleNext) (fun _ i h => h.goOn i) h
  | dismissNext | pass | stopListening => exact ⟨h.1, h.2, h.3⟩

theorem moves (h : desk.Tidy settings) (ms : List Move) :
    (desk.moves remote ms).Tidy settings := by
  induction ms generalizing desk with
  | nil => exact h
  | cons m ms ih => exact ih (h.move m)

/-- Closed, a desk is like a new one in its place, but for the events that still wait. -/
theorem cancelled (h : desk.Tidy settings) :
    Like desk.dialog.lastToken.number (desk.after .cancel) (desk.renewed settings) desk.queue
      (desk.after .cancel) (desk.renewed settings) := by
  have hdialog : (desk.after .cancel).dialog = desk.dialog.left :=
    after_cancel_dialog h.consistent.coherent
  have htasks : (desk.after .cancel).tasks = [] := by
    refine (h.after .cancel).abandoned ?_
    rw [hdialog]
    rfl
  have hlast : desk.dialog.lastToken =
      SessionToken.initial.later desk.dialog.lastToken.number := by
    simp [SessionToken.later, SessionToken.initial]
  refine ⟨?_, ?_, ?_, ?_, ?_, htasks, ?_, ⟨[], ?_⟩, ⟨[], ?_⟩⟩
  · rw [hdialog, Dialog.left, h.settings_eq]
    exact congrArg (Dialog.mk settings .closed none) hlast
  all_goals simp [Desk.after, Desk.perform, follow_eq, renewed, Desk.create]

end Tidy

theorem Tidy.after_openOn_like {settings : DialogSettings} (h : desk.Tidy settings)
    (source : FeedSource) :
    Like desk.dialog.lastToken.number (desk.after .cancel) (desk.renewed settings) desk.queue
      (desk.after (.openOn source)) ((desk.renewed settings).after (.openOn source)) := by
  rw [after_openOn h.consistent.coherent]
  exact h.cancelled.after (.openOn source)

/-- After any run, with events of any kind, a view that is opened has the session of a new view but
for its token, and nothing under way but the load of it. From then on it goes on as a new view of
the same settings does, in its place: the same is returned, the host hears the same behind what it
heard when the old session was closed, the server is asked the same, and view, tasks and events are
the same under later tokens. Events of earlier sessions that still wait make no difference. -/
theorem reopened_like_new (remote : Remote σ) (settings : DialogSettings) (wallClock : Int64)
    (s : σ) (past : List Move) (source : FeedSource) {old : Desk σ} {ms new : List Move}
    (hold : old = (create settings wallClock s).moves remote past)
    (hd : Delays remote old.dialog.lastToken.number old.queue (old.after (.openOn source)) ms new) :
    (old.after (.openOn source)).dialog.session =
        some (.fresh old.dialog.lastToken.next source) ∧
      (old.after (.openOn source)).tasks =
        [⟨old.time, .unstarted (.load old.dialog.lastToken.next source.call)⟩] ∧
      old.results remote (.operate (.openOn source) :: ms) =
        ((old.renewed settings).results remote (.operate (.openOn source) :: new)).map
          (Returned.later old.dialog.lastToken.number) ∧
      ∃ late, Like old.dialog.lastToken.number (old.after .cancel) (old.renewed settings) late
        (old.moves remote (.operate (.openOn source) :: ms))
        ((old.renewed settings).moves remote (.operate (.openOn source) :: new)) := by
  have htidy : old.Tidy settings := hold ▸ (Tidy.create settings wallClock s).moves past
  have hlike := htidy.after_openOn_like source
  obtain ⟨hresults, hmoves⟩ := hlike.delayed hd
  have htoken : SessionToken.initial.next.later old.dialog.lastToken.number =
      old.dialog.lastToken.next := by
    rw [← SessionToken.next_later]
    simp [SessionToken.later, SessionToken.initial]
  refine ⟨?_, ?_, ?_, hmoves⟩
  · rw [hlike.dialog, ← htoken]
    rfl
  · rw [hlike.tasks, ← htoken]
    rfl
  · have hlast := congrArg Dialog.lastToken hlike.dialog
    rw [results, results, List.map_append]
    exact congrArg₂ (· ++ ·) (congrArg (fun token => [Returned.opened token]) hlast) hresults

def loadedDesk : Desk Bool :=
  (create ⟨25, 300, 0⟩ 0 true).moves (.wavering [{ url := "a" }])
    [.operate (.openOn default), .goOn 0, .goOn 0]

def sendingOnce : List Move := [.settle, .operate (.fetch ["a"]), .settle]

theorem late_load_makes_no_difference :
    loadedDesk.queue.length = 1 ∧
      Delays (.wavering [{ url := "a" }]) 1 loadedDesk.queue (loadedDesk.after (.openOn default))
        sendingOnce sendingOnce ∧
      loadedDesk.results (.wavering [{ url := "a" }]) (.operate (.openOn default) :: sendingOnce) =
        ((loadedDesk.renewed ⟨25, 300, 0⟩).results (.wavering [{ url := "a" }])
          (.operate (.openOn default) :: sendingOnce)).map (Returned.later 1) ∧
      ∃ late, Like 1 (loadedDesk.after .cancel) (loadedDesk.renewed ⟨25, 300, 0⟩) late
        (loadedDesk.moves (.wavering [{ url := "a" }]) (.operate (.openOn default) :: sendingOnce))
        ((loadedDesk.renewed ⟨25, 300, 0⟩).moves (.wavering [{ url := "a" }])
          (.operate (.openOn default) :: sendingOnce)) := by
  have hpass : ∀ e ∈ loadedDesk.queue, (loadedDesk.after (.openOn default)).PassesOver e := by
    rintro e he s ⟨⟩
    obtain rfl := List.mem_singleton.mp he
    decide
  have hd : Delays (.wavering [{ url := "a" }]) 1 loadedDesk.queue
      (loadedDesk.after (.openOn default)) sendingOnce sendingOnce :=
    .settle hpass (.both (.operate (.fetch ["a"])) (.inl rfl) (.both .settle (.inl rfl) (.done ..)))
  obtain ⟨-, -, hresults, hlike⟩ := reopened_like_new (.wavering [{ url := "a" }]) ⟨25, 300, 0⟩ 0
    true _ default (rfl : loadedDesk = _) hd
  exact ⟨rfl, hd, hresults, hlike⟩

end Desk

end FeedDesk
