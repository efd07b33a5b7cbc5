import FeedDesk.Proofs.Dialog.Transition

/-!
# Runs of a view

A run is a list of operations, each at its own time. Events are delivered by operations like any
other, so a run may hold events of any session, in any order and any number of times. A property
of the effects so far and the view that every transition keeps holds after every run.
-/
namespace FeedDesk

/-- A view after some operations, with the effects of all of them. -/
def Dialog.run (d : Dialog) : List (Int64 × Operation) → Turn
  | [] => .idle d
  | (now, op) :: rest => (d.perform now op).turn.andThen fun d => d.run rest

theorem Dialog.run_append (d : Dialog) (a b : List (Int64 × Operation)) :
    d.run (a ++ b) = (d.run a).andThen fun d => d.run b := by
  induction a generalizing d with
  | nil => rfl
  | cons timed a ih => simp [run, ih, Turn.andThen]

def Effect.hostCall? : Effect → Option HostCall
  | .host call => some call
  | .start _ | .abandonTasks => none

def hostCallsOf (effects : List Effect) : List HostCall := effects.filterMap Effect.hostCall?

@[simp] theorem hostCallsOf_append (a b : List Effect) :
    hostCallsOf (a ++ b) = hostCallsOf a ++ hostCallsOf b :=
  List.filterMap_append

@[simp] theorem hostCallsOf_nil : hostCallsOf [] = [] := rfl

@[simp] theorem hostCallsOf_host (call : HostCall) (effects : List Effect) :
    hostCallsOf (.host call :: effects) = call :: hostCallsOf effects := rfl

@[simp] theorem hostCallsOf_start (task : Task) (effects : List Effect) :
    hostCallsOf (.start task :: effects) = hostCallsOf effects := rfl

@[simp] theorem hostCallsOf_abandonTasks (effects : List Effect) :
    hostCallsOf (.abandonTasks :: effects) = hostCallsOf effects := rfl

theorem Dialog.coherent_create (settings : DialogSettings) : (create settings).Coherent :=
  ⟨fun _ => rfl, fun _ => rfl⟩

theorem Dialog.coherent_within (d : Dialog) {phase : Phase} (hp : phase ≠ .closed) (s : Session) :
    (d.within phase s).Coherent := by
  simp [Coherent, within, hp]

theorem Dialog.coherent_left (d : Dialog) : d.left.Coherent := by
  simp [Coherent, left]

theorem Dialog.coherent_entered (d : Dialog) (source : FeedSource) :
    (d.entered source).Coherent := by
  simp [Coherent, entered]

theorem Dialog.refresh_phase (d : Dialog) (now : Int64) :
    (d.refresh now).dialog.phase = d.phase := by
  unfold refresh
  split <;> rfl

theorem Dialog.coherent_refresh {d : Dialog} (hd : d.Coherent) (now : Int64) :
    (d.refresh now).dialog.Coherent := by
  unfold refresh
  split
  · exact hd
  next s hs => simpa [Coherent, hs] using hd

theorem Transition.coherent {now : Int64} {d : Dialog} {op : Operation} {r : Reply}
    (h : Transition now d op r) (hd : d.Coherent) : r.turn.dialog.Coherent := by
  cases h with
  | refused | unopened | unchecked | unfailed | unheeded | progressed => exact hd
  | opened source | reopened source => exact d.coherent_entered source
  | cancelled | loadFailed | completed => exact d.coherent_left
  | filtered _ _ hp | renamed _ _ hp =>
    exact Dialog.coherent_refresh (d.coherent_within (by simp [hp]) _) now
  | fetched | retried | loaded | timeElapsed | halted | brokenOff =>
    exact d.coherent_within (by simp) _

/-- What every transition keeps holds after every run. -/
theorem Dialog.run_induction {P : List Effect → Dialog → Prop}
    (step : ∀ now past d op r, Transition now d op r → d.Coherent → P past d →
      P (past ++ r.turn.effects) r.turn.dialog)
    {d : Dialog} (hd : d.Coherent) {past : List Effect} (h : P past d)
    (ops : List (Int64 × Operation)) : P (past ++ (d.run ops).effects) (d.run ops).dialog := by
  induction ops generalizing d past with
  | nil => simpa [run, Turn.idle] using h
  | cons timed rest ih =>
    obtain ⟨now, op⟩ := timed
    have ht : Transition now d op (d.perform now op) := perform_transition hd op
    rw [run, Turn.andThen, ← List.append_assoc]
    exact ih (ht.coherent hd) (step now past d op _ ht hd h)

/-- What holds of a new view and is kept by every transition holds after every run of it. -/
theorem Dialog.run_create_induction {P : List Effect → Dialog → Prop}
    (step : ∀ now past d op r, Transition now d op r → d.Coherent → P past d →
      P (past ++ r.turn.effects) r.turn.dialog)
    (settings : DialogSettings) (h : P [] (create settings)) (ops : List (Int64 × Operation)) :
    P ((create settings).run ops).effects ((create settings).run ops).dialog := by
  simpa using run_induction step (coherent_create settings) h ops

end FeedDesk
