import FeedDesk.Dialog.Desk
import FeedDesk.Proofs.Dialog.Tokens

/-!
# Moves at a desk

A move is one thing that happens at a desk: an operation on its view, an event taken from the
queue, a task that goes on, time that passes. Any task may go on at any moment, whether it is due
or not, so runs of moves hold every order in which tasks and operations can follow each other.
Settling is a run of such moves as well.
-/
namespace FeedDesk

/-- Something that happens at a desk. -/
inductive Move where
  | operate (op : Operation)
  | handleNext
  | dismissNext
  | goOn (index : Nat)
  | pass (span : Nat) (wallClock : Int64)
  | settle
  | stopListening

/-- A server that lists some items and acknowledges every other request, all after a while. -/
def Remote.wavering (items : List Item) : Remote Bool where
  load _ s := (⟨1, .answers (.ok items)⟩, s)
  append _ s := (⟨1, .answers (.ok s)⟩, !s)

def Move.openings : Move → Nat
  | .operate op => op.openings
  | _ => 0

/-- What is counted over the moves of a run adds up. -/
theorem counted_append (count : Move → Nat) (a b : List Move) :
    (a ++ b).foldr (fun m n => count m + n) 0 =
      a.foldr (fun m n => count m + n) 0 + b.foldr (fun m n => count m + n) 0 := by
  induction a with
  | nil => exact (Nat.zero_add _).symm
  | cons m a ih => rw [List.cons_append, List.foldr_cons, List.foldr_cons, ih, Nat.add_assoc]

def openingsOf (ms : List Move) : Nat := ms.foldr (fun m n => m.openings + n) 0

theorem openingsOf_cons (m : Move) (ms : List Move) :
    openingsOf (m :: ms) = m.openings + openingsOf ms := rfl

theorem openingsOf_append (a b : List Move) :
    openingsOf (a ++ b) = openingsOf a + openingsOf b :=
  counted_append Move.openings a b

/-- The feed that a move leaves as the last that the view was opened on. -/
def Move.shows (shown : Option FeedSource) : Move → Option FeedSource
  | .operate op => op.shows shown
  | _ => shown

def lastShown (ms : List Move) : Option FeedSource := ms.foldl Move.shows none

/-- The moves that settling is made of. -/
def Move.Settles : Move → Prop
  | .handleNext | .goOn _ => True
  | _ => False

def tasksAfter (time : Nat) (tasks : List Running) : Effect → List Running
  | .host _ => tasks
  | .start task => tasks ++ [⟨time, .unstarted task⟩]
  | .abandonTasks => []

namespace Desk

variable {σ : Type}

def create (settings : DialogSettings) (wallClock : Int64) (remote : σ) : Desk σ :=
  { dialog := .create settings, wallClock, remote }

/-- Takes the first of the waiting events without handling it. -/
def dismissNext (desk : Desk σ) : Desk σ := { desk with queue := desk.queue.tail }

def goOn (remote : Remote σ) (index : Nat) (desk : Desk σ) : Desk σ :=
  match desk.tasks[index]? with
  | none => desk
  | some task => desk.resume remote task (desk.tasks.eraseIdx index)

/-- Lets time pass in which no task goes on. -/
def pass (span : Nat) (wallClock : Int64) (desk : Desk σ) : Desk σ :=
  { desk with time := desk.time + span, wallClock }

def move (remote : Remote σ) (desk : Desk σ) : Move → Desk σ
  | .operate op => desk.after op
  | .handleNext => desk.handleNext
  | .dismissNext => desk.dismissNext
  | .goOn index => desk.goOn remote index
  | .pass span wallClock => desk.pass span wallClock
  | .settle => desk.settle remote
  | .stopListening => desk.stopListening

def moves (remote : Remote σ) (desk : Desk σ) (ms : List Move) : Desk σ :=
  ms.foldl (move remote) desk

theorem moves_append (remote : Remote σ) (desk : Desk σ) (a b : List Move) :
    desk.moves remote (a ++ b) = (desk.moves remote a).moves remote b :=
  List.foldl_append

/-! ## What a step of the view changes -/

theorem foldl_carryOut (effects : List Effect) (desk : Desk σ) :
    effects.foldl carryOut desk =
      { desk with
        screen := desk.screen.applyAll (hostCallsOf effects)
        hostCalls := desk.hostCalls ++ hostCallsOf effects
        tasks := effects.foldl (tasksAfter desk.time) desk.tasks } := by
  induction effects generalizing desk with
  | nil => simp [hostCallsOf, Screen.applyAll]
  | cons effect effects ih =>
    rw [List.foldl_cons, ih]
    cases effect with
    | host call => simp [carryOut, Screen.applyAll, tasksAfter]
    | start task => simp [carryOut, tasksAfter]
    | abandonTasks => simp [carryOut, tasksAfter]

theorem follow_eq (desk : Desk σ) (turn : Turn) :
    desk.follow turn =
      { desk with
        dialog := turn.dialog
        screen := desk.screen.applyAll (hostCallsOf turn.effects)
        hostCalls := desk.hostCalls ++ hostCallsOf turn.effects
        tasks := turn.effects.foldl (tasksAfter desk.time) desk.tasks } :=
  foldl_carryOut turn.effects _

theorem after_dialog (desk : Desk σ) (op : Operation) :
    (desk.after op).dialog = (desk.dialog.perform desk.wallClock op).turn.dialog := by
  rw [after, perform, follow_eq]

theorem after_cancel_dialog {desk : Desk σ} (hc : desk.dialog.Coherent) :
    (desk.after .cancel).dialog = desk.dialog.left := by
  rw [after_dialog]
  exact Dialog.close_dialog hc

/-- A desk after an operation, by the transition that its view makes. -/
theorem after_transition {desk : Desk σ} (hc : desk.dialog.Coherent) (op : Operation) :
    ∃ r, Transition desk.wallClock desk.dialog op r ∧ desk.perform op = (r.outcome, desk.after op) ∧
      desk.after op =
        { desk with
          dialog := r.turn.dialog
          screen := desk.screen.applyAll (hostCallsOf r.turn.effects)
          hostCalls := desk.hostCalls ++ hostCallsOf r.turn.effects
          tasks := r.turn.effects.foldl (tasksAfter desk.time) desk.tasks } :=
  ⟨_, perform_transition hc op, rfl, follow_eq desk _⟩

theorem handleNext_transition {desk : Desk σ} (hc : desk.dialog.Coherent) :
    desk.queue = [] ∧ desk.handleNext = desk ∨
      ∃ event rest r, desk.queue = event :: rest ∧
        Transition desk.wallClock desk.dialog (.deliver event) r ∧
        desk.handleNext =
          { desk with
            dialog := r.turn.dialog
            screen := desk.screen.applyAll (hostCallsOf r.turn.effects)
            hostCalls := desk.hostCalls ++ hostCallsOf r.turn.effects
            tasks := r.turn.effects.foldl (tasksAfter desk.time) desk.tasks
            queue := rest } := by
  unfold handleNext
  split
  next hq => exact .inl ⟨hq, rfl⟩
  next event rest hq =>
    exact .inr ⟨event, rest, _, hq, perform_transition hc (.deliver event), follow_eq _ _⟩

/-- A desk after a task has gone on, by what the task does if it is there. -/
theorem goOn_resume (remote : Remote σ) (desk : Desk σ) (index : Nat) :
    desk.tasks[index]? = none ∧ desk.goOn remote index = desk ∨
      ∃ task time, desk.tasks[index]? = some task ∧
        desk.goOn remote index =
          { desk with time, tasks := desk.tasks.eraseIdx index }.absorb
            (task.activity.resume remote time desk.remote) := by
  unfold goOn
  split
  next hget => exact .inl ⟨hget, rfl⟩
  next task hget => exact .inr ⟨task, max desk.time task.due, hget, rfl⟩

theorem follow_idle (desk : Desk σ) : desk.follow (.idle desk.dialog) = desk := rfl

theorem after_unheeded (desk : Desk σ) {event : Event} (h : ¬ desk.dialog.Heeds event) :
    desk.after (.deliver event) = desk := by
  change desk.follow (desk.dialog.handle desk.wallClock event) = desk
  rw [Dialog.handle_of_unheeded h, follow_idle]

/-! ## Settling -/

theorem takeEarliest_eq {tasks others : List Running} {task : Running}
    (h : takeEarliest tasks = some (task, others)) :
    ∃ index, tasks[index]? = some task ∧ others = tasks.eraseIdx index := by
  induction tasks generalizing task others with
  | nil => simp [takeEarliest] at h
  | cons first rest ih =>
    rw [takeEarliest] at h
    split at h
    next hrest =>
      obtain ⟨rfl, rfl⟩ := Prod.mk.inj (Option.some.inj h)
      refine ⟨0, rfl, ?_⟩
      cases rest with
      | nil => rfl
      | cons second rest =>
        rw [takeEarliest] at hrest
        split at hrest
        · simp at hrest
        · split at hrest <;> simp at hrest
    next other others' hrest =>
      split at h
      · obtain ⟨rfl, rfl⟩ := Prod.mk.inj (Option.some.inj h)
        exact ⟨0, rfl, rfl⟩
      · obtain ⟨rfl, rfl⟩ := Prod.mk.inj (Option.some.inj h)
        obtain ⟨index, hget, rfl⟩ := ih hrest
        exact ⟨index + 1, by simpa using hget, rfl⟩

/-- Settling is a run in which events are handled and tasks go on. -/
theorem settle_eq_moves (remote : Remote σ) (desk : Desk σ) :
    ∃ steps : List Move, (∀ m ∈ steps, m.Settles) ∧
      desk.settle remote = desk.moves remote steps := by
  have within : ∀ fuel (desk : Desk σ), ∃ steps : List Move, (∀ m ∈ steps, m.Settles) ∧
      settleWithin remote fuel desk = desk.moves remote steps := by
    intro fuel
    induction fuel with
    | zero => exact fun desk => ⟨[], by simp, rfl⟩
    | succ fuel ih =>
      intro desk
      rw [settleWithin]
      split
      · exact ⟨[], by simp, rfl⟩
      · split
        · obtain ⟨steps, hsteps, h⟩ := ih desk.handleNext
          exact ⟨.handleNext :: steps, List.forall_mem_cons.mpr ⟨trivial, hsteps⟩, h⟩
        · split
          · exact ⟨[], by simp, rfl⟩
          · split
            · exact ⟨[], by simp, rfl⟩
            next task others htake =>
              obtain ⟨index, hget, rfl⟩ := takeEarliest_eq htake
              obtain ⟨steps, hsteps, h⟩ := ih (desk.goOn remote index)
              refine ⟨.goOn index :: steps, List.forall_mem_cons.mpr ⟨trivial, hsteps⟩, ?_⟩
              simpa only [moves, List.foldl_cons, move, goOn, hget] using h
  exact within _ desk

/-- What is kept when an event is handled and when a task goes on is kept by settling. -/
theorem settle_induction {remote : Remote σ} {P : Desk σ → Prop}
    (handled : ∀ desk, P desk → P desk.handleNext)
    (gone : ∀ desk index, P desk → P (desk.goOn remote index)) {desk : Desk σ} (h : P desk) :
    P (desk.settle remote) := by
  obtain ⟨steps, hsteps, heq⟩ := settle_eq_moves remote desk
  rw [heq]
  clear heq
  induction steps generalizing desk with
  | nil => exact h
  | cons m steps ih =>
    obtain ⟨hm, hrest⟩ := List.forall_mem_cons.mp hsteps
    refine ih ?_ hrest
    cases m with
    | handleNext => exact handled desk h
    | goOn index => exact gone desk index h
    | operate | dismissNext | pass | settle | stopListening => exact hm.elim

/-! ## What moves do to the view -/

theorem goOn_dialog (remote : Remote σ) (desk : Desk σ) (index : Nat) :
    (desk.goOn remote index).dialog = desk.dialog := by
  unfold goOn
  split <;> rfl

/-- What a view keeps whatever event it handles is kept by every move but an operation. -/
theorem move_dialog {remote : Remote σ} {P : Dialog → Prop}
    (handled : ∀ now d event, P d → P (d.handle now event).dialog) {desk : Desk σ} {m : Move}
    (hm : ∀ op, m ≠ .operate op) (h : P desk.dialog) : P (desk.move remote m).dialog := by
  have next : ∀ desk : Desk σ, P desk.dialog → P desk.handleNext.dialog := by
    intro desk h
    unfold handleNext
    split
    · exact h
    next event rest _ =>
      rw [after_dialog]
      exact handled _ _ event h
  have gone : ∀ (desk : Desk σ) (index : Nat), P desk.dialog →
      P (desk.goOn remote index).dialog := by
    intro desk index h
    rw [goOn_dialog]
    exact h
  cases m with
  | operate op => exact absurd rfl (hm op)
  | handleNext => exact next desk h
  | goOn index => exact gone desk index h
  | settle => exact settle_induction (P := fun desk => P desk.dialog) next gone h
  | dismissNext | pass | stopListening => exact h

/-- The items of the session of a view are queued as the feed says that it was last opened on. -/
theorem serves_moves (remote : Remote σ) {desk : Desk σ} {shown : Option FeedSource}
    (hc : desk.dialog.Coherent) (hs : desk.dialog.Serves shown) (ms : List Move) :
    (desk.moves remote ms).dialog.Serves (ms.foldl Move.shows shown) := by
  induction ms generalizing desk shown with
  | nil => exact hs
  | cons m ms ih =>
    have hmove : (desk.move remote m).dialog.Coherent ∧
        (desk.move remote m).dialog.Serves (m.shows shown) := by
      cases m with
      | operate op =>
        have ht : Transition desk.wallClock desk.dialog op
            (desk.dialog.perform desk.wallClock op) := perform_transition hc op
        rw [move, after_dialog]
        exact ⟨ht.coherent hc, ht.serves hs⟩
      | handleNext | dismissNext | goOn | pass | settle | stopListening =>
        refine move_dialog (P := fun d => d.Coherent ∧ d.Serves shown) ?_ (by simp) ⟨hc, hs⟩
        intro now d event h
        exact ⟨(handle_transition event).coherent h.1, (handle_transition event).serves h.2⟩
    exact ih hmove.1 hmove.2

end Desk

end FeedDesk
