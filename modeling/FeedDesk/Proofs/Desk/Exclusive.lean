import FeedDesk.Proofs.Desk.Bursts
import FeedDesk.Proofs.Desk.Moves
import FeedDesk.Proofs.Dialog.Consistency
import Mathlib.Data.List.Perm.Basic

/-!
# Work under way at a desk

A view that handles only what its own tasks report, in the order of the reports, has one load under
way at most, while it loads, and one batch at most, while it dispatches. Everything else that is
under way are timers. Tokens have 64 bits, so this needs that no session is opened under a token
that an event still waits with.
-/
namespace FeedDesk

def Phase.work? : Phase → Option TaskKind
  | .loading => some .load
  | .dispatching => some .dispatch
  | .closed | .ready => none

def Operation.handled : Operation → List Event
  | .deliver event => [event]
  | _ => []

/-- The work under way of a view, and the events that wait, if all of it is for its session. A load
or a batch counts as under way until it is heard that it is over. -/
structure Dialog.Exclusive (d : Dialog) (tasks : List Running) (queue : List Event) : Prop where
  consistent : d.Consistent
  abandoned : d.phase = .closed → tasks = []
  owned : ∀ s, d.session = some s → ∀ t ∈ tasks, t.activity.token = s.token
  single : ∀ s, d.session = some s → ∀ kind, kind = .load ∨ kind = .dispatch →
    pending s.token kind tasks queue ≤ if d.phase.work? = some kind then 1 else 0

/-! ## Tasks after a step -/

section
variable (time : Nat) (tasks : List Running)

@[simp] theorem foldl_tasksAfter_signOff (s : Session) :
    s.signOff.foldl (tasksAfter time) tasks = tasks := by
  unfold Session.signOff
  split <;> rfl

@[simp] theorem foldl_tasksAfter_closing (s : Session) :
    s.closing.foldl (tasksAfter time) tasks = [] := by
  simp [Session.closing, tasksAfter]

theorem foldl_tasksAfter_opening (source : FeedSource) (token : SessionToken) :
    (source.opening token).foldl (tasksAfter time) tasks =
      tasks ++ [⟨time, .unstarted (.load token source.call)⟩] := rfl

theorem foldl_tasksAfter_batch (d : Dialog) (s : Session) (queue : JobQueue) :
    (d.batchEffects s queue).foldl (tasksAfter time) tasks =
      tasks ++ [⟨time, .unstarted (.timer s.token (s.batch + 1) d.settings.transmitDelay)⟩,
        ⟨time, .unstarted (.dispatch s.token (s.batch + 1) s.defaults queue)⟩] := by
  simp [Dialog.batchEffects, tasksAfter]

end

theorem mem_foldl_tasksAfter {time : Nat} {effects : List Effect} {tasks : List Running}
    {t : Running} (h : t ∈ effects.foldl (tasksAfter time) tasks) :
    t ∈ tasks ∨ ∃ task, .start task ∈ effects ∧ t = ⟨time, .unstarted task⟩ := by
  induction effects generalizing tasks with
  | nil => exact .inl h
  | cons effect effects ih =>
    rcases ih h with h | ⟨task, hmem, rfl⟩
    · cases effect with
      | host call => exact .inl h
      | start task =>
        rcases List.mem_append.mp h with h | h
        · exact .inl h
        · exact .inr ⟨task, List.mem_cons_self, List.mem_singleton.mp h⟩
      | abandonTasks => cases h
    · exact .inr ⟨task, List.mem_cons_of_mem _ hmem, rfl⟩

theorem not_started_signOff {task : Task} (s : Session) : .start task ∉ s.signOff := by
  unfold Session.signOff
  split <;> simp

theorem not_started_closing {task : Task} (s : Session) : .start task ∉ s.closing := by
  simp [Session.closing, not_started_signOff]

theorem not_started_refresh {task : Task} (d : Dialog) (now : Int64) :
    .start task ∉ (d.refresh now).effects := by
  unfold Dialog.refresh
  split
  · simp [Turn.idle]
  · dsimp only
    split <;> simp

theorem perm_eraseIdx {α : Type} {l : List α} {index : Nat} {a : α} (h : l[index]? = some a) :
    (a :: l.eraseIdx index).Perm l := by
  obtain ⟨hlt, rfl⟩ := List.getElem?_eq_some_iff.mp h
  exact List.getElem_cons_eraseIdx_perm hlt

/-! ## Changes of what is pending -/

section
variable {token : SessionToken} {kind : TaskKind} {tasks : List Running} {queue : List Event}

theorem pending_cons_event (e : Event) :
    pending token kind tasks (e :: queue) =
      pending token kind tasks queue + if e.concludes token kind then 1 else 0 := by
  rw [pending, pending, List.countP_cons, Nat.add_assoc]

theorem pending_le_of_sublist {more : List Event} (h : queue.Sublist more) :
    pending token kind tasks queue ≤ pending token kind tasks more :=
  Nat.add_le_add_left h.countP_le _

theorem pending_append_tasks (more : List Running) :
    pending token kind (tasks ++ more) queue =
      pending token kind tasks queue + more.countP (·.does token kind) := by
  simp only [pending, List.countP_append]
  omega

theorem pending_append (more : List Running) (events : List Event) :
    pending token kind (tasks ++ more) (queue ++ events) =
      pending token kind tasks queue + pending token kind more events := by
  simp only [pending, List.countP_append]
  omega

/-- A task is taken out of those under way. -/
theorem pending_eraseIdx {index : Nat} {task : Running} (h : tasks[index]? = some task) :
    pending token kind (tasks.eraseIdx index) queue + (if task.does token kind then 1 else 0) =
      pending token kind tasks queue := by
  have hperm := (perm_eraseIdx h).countP_eq (·.does token kind)
  rw [List.countP_cons] at hperm
  simp only [pending]
  omega

theorem pending_eq_zero_iff :
    pending token kind tasks queue = 0 ↔
      (∀ t ∈ tasks, ¬ t.does token kind) ∧ ∀ e ∈ queue, ¬ e.concludes token kind := by
  rw [pending, Nat.add_eq_zero_iff, List.countP_eq_zero, List.countP_eq_zero]

end

namespace Dialog.Exclusive

variable {d : Dialog} {tasks : List Running} {queue : List Event} {s : Session}

theorem create (settings : DialogSettings) : (Dialog.create settings).Exclusive [] [] where
  consistent := consistent_create settings
  abandoned _ := rfl
  owned _ h := by simp [Dialog.create] at h
  single _ h := by simp [Dialog.create] at h

theorem dequeue {more : List Event} (hx : d.Exclusive tasks more) (hq : queue.Sublist more) :
    d.Exclusive tasks queue where
  consistent := hx.consistent
  abandoned := hx.abandoned
  owned := hx.owned
  single s hs kind hk := Nat.le_trans (pending_le_of_sublist hq) (hx.single s hs kind hk)

/-- The session goes on in a phase, with as much under way as the phase waits for. -/
theorem within {s' : Session} {phase : Phase} {tasks' : List Running} (ht : s'.token = s.token)
    (hc : (d.within phase s').Consistent) (hp : phase ≠ .closed)
    (howned : ∀ t ∈ tasks', t.activity.token = s.token)
    (hsingle : ∀ kind, kind = .load ∨ kind = .dispatch →
      pending s.token kind tasks' queue ≤ if phase.work? = some kind then 1 else 0) :
    (d.within phase s').Exclusive tasks' queue where
  consistent := hc
  abandoned h := absurd h hp
  owned := by
    rintro _ ⟨⟩
    rw [ht]
    exact howned
  single := by
    rintro _ ⟨⟩
    rw [ht]
    exact hsingle

theorem stay {s' : Session} {phase : Phase} (hx : d.Exclusive tasks queue)
    (hs : d.session = some s) (ht : s'.token = s.token) (hc : (d.within phase s').Consistent)
    (hp : d.phase = phase) : (d.within phase s').Exclusive tasks queue := by
  subst hp
  have hopen : d.phase ≠ .closed := by
    intro h
    rw [hx.consistent.coherent.mpr h] at hs
    cases hs
  exact .within ht hc hopen (hx.owned s hs) (hx.single s hs)

theorem refreshed {s' : Session} {now : Int64} (hx : d.Exclusive tasks queue)
    (hs : d.session = some s) (ht : s'.token = s.token) (hfits : s'.Fits .ready)
    (hc : ((d.within d.phase s').refresh now).dialog.Consistent) (time : Nat) :
    ((d.within d.phase s').refresh now).dialog.Exclusive
      (((d.within d.phase s').refresh now).effects.foldl (tasksAfter time) tasks) queue := by
  obtain ⟨⟨items, hi, -⟩, -⟩ := hfits.loaded (.inl rfl)
  rw [refresh_of_items rfl hi] at hc ⊢
  exact hx.stay hs ht hc rfl

/-- Once the end of the work that a phase waits for is heard, nothing but timers is pending. -/
theorem pending_eq_zero {report : Report} {kind : TaskKind}
    (hx : d.Exclusive tasks (⟨s.token, report⟩ :: queue)) (hs : d.session = some s)
    (he : report.ends? = some kind) (hw : d.phase.work? = some kind) (other : TaskKind)
    (hk : other = .load ∨ other = .dispatch) : pending s.token other tasks queue = 0 := by
  have hsingle := hx.single s hs other hk
  rw [pending_cons_event, hw] at hsingle
  by_cases h : kind = other
  · subst h
    simp only [Event.concludes, he, and_self, decide_true, if_true] at hsingle
    omega
  · simp only [Option.some.injEq, h, if_false] at hsingle
    omega

/-- The view becomes ready when the end of the work that it waited for is heard. -/
theorem becomeReady {s' : Session} {report : Report} {kind : TaskKind}
    (hx : d.Exclusive tasks (⟨s.token, report⟩ :: queue)) (hs : d.session = some s)
    (he : report.ends? = some kind) (hw : d.phase.work? = some kind) (ht : s'.token = s.token)
    (hc : (d.within .ready s').Consistent) : (d.within .ready s').Exclusive tasks queue := by
  refine .within ht hc (by simp) (hx.owned s hs) fun kind hk => ?_
  rw [hx.pending_eq_zero hs he hw kind hk]
  exact Nat.zero_le _

/-- A batch begins when nothing but timers is pending. -/
theorem send {s' : Session} (hx : d.Exclusive tasks queue) (hp : d.phase = .ready)
    (hs : d.session = some s) (ht : s'.token = s.token)
    (hc : (d.within .dispatching s').Consistent) (time : Nat) (jobs : JobQueue) :
    (d.within .dispatching s').Exclusive
      ((d.batchEffects s jobs).foldl (tasksAfter time) tasks) queue := by
  rw [foldl_tasksAfter_batch]
  refine .within ht hc (by simp) ?_ fun kind hk => ?_
  · intro t hmem
    rw [List.mem_append, List.mem_cons, List.mem_singleton] at hmem
    rcases hmem with hmem | rfl | rfl
    · exact hx.owned s hs t hmem
    · rfl
    · rfl
  · have hnone := hx.single s hs kind hk
    rw [hp] at hnone
    rw [pending_append_tasks, Nat.eq_zero_of_le_zero hnone]
    rcases hk with rfl | rfl <;>
      simp [Running.does, Activity.kind, Task.kind, Activity.token, Task.token, Phase.work?]

theorem left (d : Dialog) (queue : List Event) : d.left.Exclusive [] queue where
  consistent := consistent_left d
  abandoned _ := rfl
  owned _ h := by simp [Dialog.left] at h
  single _ h := by simp [Dialog.left] at h

theorem entered (hfresh : ∀ e ∈ queue, e.token ≠ d.lastToken.next) (time : Nat)
    (source : FeedSource) :
    (d.entered source).Exclusive ((source.opening d.lastToken.next).foldl (tasksAfter time) [])
      queue where
  consistent := consistent_entered d source
  abandoned h := by simp [Dialog.entered] at h
  owned := by
    rintro _ ⟨⟩ t ht
    rw [foldl_tasksAfter_opening, List.nil_append, List.mem_singleton] at ht
    rw [ht]
    rfl
  single := by
    rintro _ ⟨⟩ kind hk
    have hqueue : pending d.lastToken.next kind [] queue = 0 := by
      rw [pending_eq_zero_iff]
      refine ⟨by simp, fun e he => ?_⟩
      simp [Event.concludes, hfresh e he]
    rw [foldl_tasksAfter_opening, pending_append_tasks]
    change pending d.lastToken.next kind [] queue + _ ≤ _
    rw [hqueue]
    rcases hk with rfl | rfl <;>
      simp [Running.does, Activity.kind, Task.kind, Activity.token, Task.token, Session.fresh,
        Dialog.entered, Phase.work?]

/-- A view with tasks under way is open. -/
theorem exists_session (hx : d.Exclusive tasks queue) {task : Running} (ht : task ∈ tasks) :
    ∃ s, d.session = some s ∧ task.activity.token = s.token := by
  have hopen : d.phase ≠ .closed := by
    intro h
    rw [hx.abandoned h] at ht
    cases ht
  obtain ⟨s, hs⟩ := hx.consistent.coherent.exists_session hopen
  exact ⟨s, hs, hx.owned s hs task ht⟩

/-- A load or a batch is what the phase of the view waits for. -/
theorem awaits (hx : d.Exclusive tasks queue) {task : Running} (ht : task ∈ tasks)
    (hk : task.activity.kind = .load ∨ task.activity.kind = .dispatch) :
    ∃ s, d.session = some s ∧ task.activity.token = s.token ∧
      d.phase.work? = some task.activity.kind := by
  obtain ⟨s, hs, htoken⟩ := hx.exists_session ht
  refine ⟨s, hs, htoken, ?_⟩
  by_contra hw
  have hsingle := hx.single s hs _ hk
  rw [if_neg hw, Nat.le_zero, pending_eq_zero_iff] at hsingle
  exact hsingle.1 task ht (by simp [Running.does, htoken])

/-- While the view is ready no batch is under way. -/
theorem ready_idle (hx : d.Exclusive tasks queue) (hp : d.phase = .ready)
    (hs : d.session = some s) :
    (∀ t ∈ tasks, t.activity.kind ≠ .dispatch) ∧
      ∀ e ∈ queue, e.token = s.token → e.report.ends? ≠ some .dispatch := by
  have hsingle := hx.single s hs .dispatch (.inr rfl)
  rw [hp] at hsingle
  obtain ⟨htasks, hqueue⟩ := pending_eq_zero_iff.mp (Nat.eq_zero_of_le_zero hsingle)
  constructor
  · intro t ht hkind
    apply htasks t ht
    simp [Running.does, hkind, hx.owned s hs t ht]
  · intro e he htoken hends
    apply hqueue e he
    simp [Event.concludes, htoken, hends]

/-- While a batch is under way the view dispatches, and there is no other batch. -/
theorem batch_alone {index : Nat} {task : Running} (hx : d.Exclusive tasks queue)
    (hget : tasks[index]? = some task) (hk : task.activity.kind = .dispatch) :
    d.phase = .dispatching ∧ (∀ t ∈ tasks.eraseIdx index, t.activity.kind ≠ .dispatch) ∧
      ∀ s, d.session = some s → ∀ e ∈ queue, e.token = s.token →
        e.report.ends? ≠ some .dispatch := by
  obtain ⟨s, hs, htoken, hwork⟩ := hx.awaits (List.mem_of_getElem? hget) (.inr hk)
  rw [hk] at hwork
  have hdoes : task.does s.token .dispatch = true := by
    simp [Running.does, htoken, hk]
  have hsingle := hx.single s hs .dispatch (.inr rfl)
  rw [← pending_eraseIdx hget, hdoes, if_pos rfl, if_pos hwork] at hsingle
  have hnone : pending s.token .dispatch (tasks.eraseIdx index) queue = 0 := by omega
  obtain ⟨htasks, hqueue⟩ := pending_eq_zero_iff.mp hnone
  refine ⟨?_, ?_, ?_⟩
  · cases hp : d.phase <;> simp [hp, Phase.work?] at hwork ⊢
  · intro t ht hkind
    apply htasks t ht
    simp [Running.does, hkind, hx.owned s hs t (List.mem_of_mem_eraseIdx ht)]
  · intro s' hs' e he htok hends
    obtain rfl : s = s' := Option.some.inj (hs.symm.trans hs')
    apply hqueue e he
    simp [Event.concludes, htok, hends]

theorem absorb {σ : Type} {burst : Burst σ} {index : Nat} {task : Running}
    (hx : d.Exclusive tasks queue) (hget : tasks[index]? = some task)
    (hw : burst.Works task.activity.token task.activity.kind) :
    d.Exclusive (tasks.eraseIdx index ++ burst.next.toList) (queue ++ burst.events) where
  consistent := hx.consistent
  abandoned h := by
    rw [hx.abandoned h] at hget
    simp at hget
  owned s hs t ht := by
    obtain ⟨s', hs', htoken⟩ := hx.exists_session (List.mem_of_getElem? hget)
    obtain rfl : s = s' := Option.some.inj (hs.symm.trans hs')
    rcases List.mem_append.mp ht with ht | ht
    · exact hx.owned s hs t (List.mem_of_mem_eraseIdx ht)
    · rw [hw.next_token t ht, htoken]
  single s hs kind hk := by
    refine Nat.le_trans (Nat.le_of_eq ?_) (hx.single s hs kind hk)
    rw [pending_append, hw.pending, ← pending_eraseIdx hget]
    simp only [Running.does, decide_eq_true_eq]

end Dialog.Exclusive

/-- Every step keeps the work of a view apart, if it opens no session that an event already waits
for. -/
theorem Transition.exclusive {now : Int64} {d : Dialog} {tasks : List Running}
    {queue : List Event} {op : Operation} {r : Reply} (h : Transition now d op r)
    (hx : d.Exclusive tasks (op.handled ++ queue))
    (hfresh : 0 < op.openings → ∀ e ∈ queue, e.token ≠ d.lastToken.next) (time : Nat) :
    r.turn.dialog.Exclusive (r.turn.effects.foldl (tasksAfter time) tasks) queue := by
  have hc : r.turn.dialog.Consistent := h.consistent hx.consistent
  have hd : d.Exclusive tasks queue := hx.dequeue (List.sublist_append_right _ _)
  have fits {s : Session} (hs : d.session = some s) (hp : d.phase = .ready) : s.Fits .ready :=
    hp ▸ hx.consistent.session_fits s hs
  cases h with
  | refused | unopened | unchecked | unfailed | unheeded | progressed => exact hd
  | opened source hp =>
    rw [hd.abandoned hp]
    exact .entered (hfresh Nat.one_pos) time source
  | reopened source s =>
    simp only [List.foldl_append, foldl_tasksAfter_closing]
    exact .entered (hfresh Nat.one_pos) time source
  | cancelled | loadFailed | completed =>
    simp only [List.foldl_append, foldl_tasksAfter_closing, foldl_tasksAfter_signOff,
      List.foldl_cons, List.foldl_nil, tasksAfter]
    exact .left d queue
  | filtered filter s hp hs => exact hd.refreshed hs (by rfl) ((fits hs hp).filtered filter) hc time
  | renamed naming s hp hs => exact hd.refreshed hs (by rfl) ((fits hs hp).renamed naming) hc time
  | fetched _ jobs s hp hs => exact hd.send hp hs (by rfl) hc time jobs
  | retried failure s hp hs => exact hd.send hp hs (by rfl) hc time failure.retryQueue
  | loaded items s hp hs => exact hx.becomeReady hs rfl (by rw [hp]; rfl) rfl hc
  | timeElapsed s hp hs => exact hd.stay hs rfl hc hp
  | halted _ s hp hs | brokenOff _ s hp hs =>
    simp only [List.foldl_append, foldl_tasksAfter_signOff]
    exact hx.becomeReady hs rfl (by rw [hp]; rfl) rfl hc

/-! ## Desks -/

/-- The moves of a desk by itself: every event that is handled was reported by a task, and events
are handled in the order of the reports. -/
def Move.Own : Move → Prop
  | .operate (.deliver _) | .dismissNext => False
  | _ => True

theorem Move.Own.handled {op : Operation} (h : (Move.operate op).Own) : op.handled = [] := by
  cases op with
  | deliver => exact h.elim
  | openOn | setFilter | setNaming | fetch | retry | cancel => rfl

namespace Desk

variable {σ : Type} {remote : Remote σ} {desk : Desk σ}

def Exclusive (desk : Desk σ) : Prop := desk.dialog.Exclusive desk.tasks desk.queue

/-- Whether a move opens a session under a token that an event waits with. -/
def Reuses (desk : Desk σ) (m : Move) : Prop :=
  0 < m.openings ∧ ∃ e ∈ desk.queue, e.token = desk.dialog.lastToken.next

/-- Whether no move of a run opens a session under a token that an event waits with. -/
def Fresh (remote : Remote σ) (desk : Desk σ) : List Move → Prop
  | [] => True
  | m :: ms => ¬ desk.Reuses m ∧ Fresh remote (desk.move remote m) ms

theorem exclusive_create (settings : DialogSettings) (wallClock : Int64) (s : σ) :
    (create settings wallClock s).Exclusive :=
  Dialog.Exclusive.create settings

theorem Exclusive.after {op : Operation} (h : desk.Exclusive) (hop : op.handled = [])
    (hfresh : ¬ desk.Reuses (.operate op)) : (desk.after op).Exclusive := by
  obtain ⟨r, ht, -, heq⟩ := after_transition h.consistent.coherent op
  have hx : desk.dialog.Exclusive desk.tasks (op.handled ++ desk.queue) := by
    rw [hop]
    exact h
  rw [heq]
  exact ht.exclusive hx (fun ho e he htoken => hfresh ⟨ho, e, he, htoken⟩) desk.time

theorem Exclusive.handleNext (h : desk.Exclusive) : desk.handleNext.Exclusive := by
  rcases handleNext_transition h.consistent.coherent with
    ⟨-, heq⟩ | ⟨event, rest, r, hq, ht, heq⟩
  · rw [heq]
    exact h
  · rw [Exclusive, hq] at h
    rw [heq]
    exact ht.exclusive h (fun ho => absurd ho (Nat.lt_irrefl 0)) desk.time

theorem Exclusive.goOn (h : desk.Exclusive) (index : Nat) : (desk.goOn remote index).Exclusive := by
  rcases goOn_resume remote desk index with ⟨-, heq⟩ | ⟨task, time, hget, heq⟩
  · rw [heq]
    exact h
  · have hw : (task.activity.resume remote time desk.remote).Works task.activity.token
        task.activity.kind := task.activity.resume_works desk.remote
    have hx := Dialog.Exclusive.absorb h hget hw
    rw [heq]
    simp only [Exclusive, absorb]
    split
    · exact hx
    · exact hx.dequeue (List.sublist_append_left _ _)

theorem Exclusive.move {m : Move} (h : desk.Exclusive) (hown : m.Own) (hfresh : ¬ desk.Reuses m) :
    (desk.move remote m).Exclusive := by
  cases m with
  | operate op => exact h.after hown.handled hfresh
  | handleNext => exact h.handleNext
  | dismissNext => exact hown.elim
  | goOn index => exact h.goOn index
  | settle => exact settle_induction (fun _ h => h.handleNext) (fun _ i h => h.goOn i) h
  | pass | stopListening => exact h

theorem Exclusive.moves {ms : List Move} (h : desk.Exclusive) (hown : ∀ m ∈ ms, m.Own)
    (hfresh : desk.Fresh remote ms) : (desk.moves remote ms).Exclusive := by
  induction ms generalizing desk with
  | nil => exact h
  | cons m ms ih =>
    obtain ⟨hm, hms⟩ := List.forall_mem_cons.mp hown
    exact ih (h.move hm hfresh.1) hms hfresh.2

end Desk

end FeedDesk
