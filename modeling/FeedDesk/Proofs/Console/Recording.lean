import FeedDesk.Console.Run
import FeedDesk.Proofs.Desk.Recording

/-!
# Views at a server with a record

A terminal works on its desk and looks at no more of the server than the desk does. So a record of
the attempts at items makes no difference to what a view prints, to the error that it ends with, or
to the desk that it leaves.
-/
namespace FeedDesk

variable {σ : Type} {remote : Remote σ}

theorem Desk.forget_perform (desk : Desk (σ × List Attempt)) (op : Operation) :
    desk.forget.perform op = ((desk.perform op).1, (desk.perform op).2.forget) :=
  Prod.ext rfl (desk.forget_after op).symm

theorem Desk.forget_settle (desk : Desk (σ × List Attempt)) :
    (desk.settle remote.recording).forget = desk.forget.settle remote :=
  forget_settleWithin desk.workload desk

namespace Console

def forgetEnd (result : Run × Desk (σ × List Attempt)) : Run × Desk σ :=
  (result.1, result.2.forget)

namespace Terminal

/-- A terminal after an operation that must not be refused. -/
def demand (t : Terminal σ) (op : Operation) : Except DialogError (Terminal σ) :=
  match t.perform op with
  | (.ok (), t) => .ok t
  | (.error e, _) => .error e

/-- The items are shown by changes of the naming and of the filter, as far as they are asked for. -/
theorem present_eq (options : ViewOptions) (t : Terminal σ) :
    t.present options =
      (if options.filenames then t.demand (.setNaming .filename) else .ok t).bind fun t =>
        if options.status = .all then .ok t else t.demand (.setFilter options.status) := by
  rw [present]
  cases options.filenames with
  | false => rfl
  | true =>
    simp only [if_true, demand]
    obtain ⟨outcome, u⟩ := t.perform (.setNaming .filename)
    cases outcome <;> rfl

def forget (t : Terminal (σ × List Attempt)) : Terminal σ where
  desk := t.desk.forget
  checked := t.checked
  lines := t.lines

theorem forget_moveTo (t : Terminal (σ × List Attempt)) (desk : Desk (σ × List Attempt)) :
    (t.moveTo desk).forget = t.forget.moveTo desk.forget := rfl

theorem forget_after (t : Terminal (σ × List Attempt)) (op : Operation) :
    (t.after op).forget = t.forget.after op := by
  rw [after, forget_moveTo, Desk.forget_after]
  rfl

theorem forget_perform (t : Terminal (σ × List Attempt)) (op : Operation) :
    t.forget.perform op = ((t.perform op).1, (t.perform op).2.forget) := by
  have hdesk : t.forget.desk.perform op =
      ((t.desk.perform op).1, (t.desk.perform op).2.forget) := t.desk.forget_perform op
  rw [perform, hdesk]
  rfl

theorem forget_settle (t : Terminal (σ × List Attempt)) :
    (t.settle remote.recording).forget = t.forget.settle remote := by
  rw [settle, forget_moveTo, Desk.forget_settle]
  rfl

theorem forget_printTable (t : Terminal (σ × List Attempt)) :
    t.printTable.forget = t.forget.printTable := by
  have htable : t.forget.desk.screen.table = t.desk.screen.table := rfl
  unfold printTable
  rw [htable]
  cases t.desk.screen.table <;> rfl

theorem forget_checkVisible (t : Terminal (σ × List Attempt)) :
    t.checkVisible.forget = t.forget.checkVisible := by
  have htable : t.forget.desk.screen.table = t.desk.screen.table := rfl
  unfold checkVisible
  rw [htable]
  cases t.desk.screen.table <;> rfl

theorem forget_finish (t : Terminal (σ × List Attempt)) (failure : Option Failure) :
    t.forget.finish failure = forgetEnd (t.finish failure) := by
  rw [finish, ← forget_after]
  rfl

theorem forget_sendAll (retries : Nat) (t : Terminal (σ × List Attempt)) :
    t.forget.sendAll remote retries = forgetEnd (t.sendAll remote.recording retries) := by
  induction retries generalizing t with
  | zero =>
    rw [sendAll, sendAll, ← forget_settle]
    generalize t.settle remote.recording = u
    have hdialog : u.forget.desk.dialog = u.desk.dialog := rfl
    rw [hdialog]
    split <;> exact u.forget_finish _
  | succ retries ih =>
    rw [sendAll, sendAll, ← forget_settle]
    generalize t.settle remote.recording = u
    have hdialog : u.forget.desk.dialog = u.desk.dialog := rfl
    rw [hdialog]
    split
    · exact u.forget_finish none
    · rw [forget_perform]
      obtain ⟨outcome, v⟩ := u.perform .retry
      cases outcome with
      | ok => exact ih v
      | error e => cases e <;> exact v.forget_finish _

theorem forget_send (retries : Nat) (t : Terminal (σ × List Attempt)) :
    t.forget.send remote retries = forgetEnd (t.send remote.recording retries) := by
  have hchecked : t.forget.checked = t.checked := rfl
  rw [send, send, hchecked, forget_perform]
  obtain ⟨outcome, u⟩ := t.perform (.fetch t.checked)
  cases outcome with
  | ok => exact u.forget_sendAll retries
  | error e => cases e <;> exact u.forget_finish _

theorem forget_demand (t : Terminal (σ × List Attempt)) (op : Operation) :
    t.forget.demand op = (t.demand op).map forget := by
  rw [demand, demand, forget_perform]
  obtain ⟨outcome, u⟩ := t.perform op
  cases outcome <;> rfl

theorem forget_present (options : ViewOptions) (t : Terminal (σ × List Attempt)) :
    t.forget.present options = (t.present options).map forget := by
  have filtered (u : Terminal (σ × List Attempt)) :
      (if options.status = .all then .ok u.forget
        else u.forget.demand (.setFilter options.status)) =
      (if options.status = .all then .ok u
        else u.demand (.setFilter options.status)).map forget := by
    split
    · rfl
    · exact u.forget_demand _
  rw [present_eq, present_eq]
  cases options.filenames with
  | false => exact filtered t
  | true =>
    simp only [if_true, forget_demand]
    cases t.demand (.setNaming .filename) with
    | error e => rfl
    | ok u => exact filtered u

end Terminal

/-- A view at a server with a record is, without the record, the view at the server. -/
theorem forget_runView (source : FeedSource) (options : ViewOptions)
    (desk : Desk (σ × List Attempt)) :
    runView remote source options desk.forget =
      forgetEnd (runView remote.recording source options desk) := by
  let t : Terminal (σ × List Attempt) := { desk, checked := options.select }
  have hloaded : (t.forget.after (.openOn source)).settle remote =
      ((t.after (.openOn source)).settle remote.recording).forget := by
    rw [Terminal.forget_settle, Terminal.forget_after]
  have hstart : ({ desk := desk.forget, checked := options.select } : Terminal σ) = t.forget := rfl
  rw [runView, runView, hstart, hloaded]
  change _ = forgetEnd (if ((t.after (.openOn source)).settle remote.recording).desk.dialog.phase ≠
    .ready then _ else _)
  generalize (t.after (.openOn source)).settle remote.recording = u
  have hdialog : u.forget.desk.dialog = u.desk.dialog := rfl
  rw [hdialog, Terminal.forget_present]
  split
  · exact u.forget_finish _
  · cases u.present options with
    | error e => exact u.forget_finish _
    | ok v =>
      simp only [Except.map, ← Terminal.forget_printTable]
      generalize v.printTable = v
      split
      · exact v.forget_finish none
      · split
        · rw [← Terminal.forget_checkVisible]
          exact v.checkVisible.forget_send options.retries
        · exact v.forget_send options.retries

end Console

end FeedDesk
