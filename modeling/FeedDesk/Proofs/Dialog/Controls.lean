import FeedDesk.Proofs.Dialog.Mirror

/-!
# Controls over several sessions

Controls are offered when a view becomes ready and withdrawn when it sends a batch. Neither opening
nor closing a view sets them, so a load is begun under the controls that the session before it has
left: they stay on offer if that session was left while it was ready.
-/
namespace FeedDesk

/-- Whether a view has items to offer or to send in a phase. -/
def Phase.serves : Phase → Bool
  | .ready | .dispatching => true
  | .closed | .loading => false

def Dialog.phases (d : Dialog) : List (Int64 × Operation) → List Phase
  | [] => []
  | (now, op) :: rest =>
    let next := (d.perform now op).turn.dialog
    next.phase :: next.phases rest

def lastServing (phases : List Phase) : Option Phase := (phases.filter Phase.serves).getLast?

theorem lastServing_cons (p : Phase) (phases : List Phase) :
    lastServing (p :: phases) = (lastServing phases).or (if p.serves then some p else none) := by
  unfold lastServing
  by_cases h : p.serves = true
  · simp [h, List.getLast?_cons, Option.or_some]
  · simp [h]

/-- A step that leaves the view closed or loading leaves the controls alone. -/
theorem Transition.controls_eq {now : Int64} {d : Dialog} {op : Operation} {r : Reply}
    (h : Transition now d op r) (screen : Screen)
    (hp : r.turn.dialog.phase.serves = false) :
    (screen.after r.turn.effects).controls = screen.controls := by
  cases h with
  | refused | unopened | unfailed | unheeded | unchecked | progressed | opened => rfl
  | reopened source s => simp [Screen.after_closing, Screen.after_opening]
  | cancelled s => simp [Screen.after_closing]
  | loadFailed report e s =>
    rw [Screen.after_append, Screen.after_closing]
    rfl
  | completed jobs s =>
    rw [Screen.after_append, Screen.after_append, Screen.after_closing, Screen.after_signOff]
    rfl
  | filtered filter s hr | renamed naming s hr =>
    rw [Dialog.refresh_phase] at hp
    change d.phase.serves = false at hp
    rw [hr] at hp
    cases hp
  | fetched | retried | loaded | timeElapsed | halted | brokenOff => cases hp

theorem Screen.Mirrors.controls_eq {screen : Screen} {d : Dialog} (hm : screen.Mirrors d)
    (h : d.phase.serves = true) : screen.controls = some (d.phase == .ready) := by
  cases hp : d.phase with
  | ready => exact hm.offered hp
  | dispatching => exact hm.withdrawn hp
  | closed | loading => simp [hp, Phase.serves] at h

/-- A run leaves the controls as the last phase in which the view had items to offer or to send
wants them, and as they were if there was no such phase. -/
theorem Dialog.controls_run {d : Dialog} (hd : d.Consistent) {screen : Screen}
    (hm : screen.Mirrors d) (ops : List (Int64 × Operation)) :
    (screen.after (d.run ops).effects).controls =
      ((lastServing (d.phases ops)).map (· == .ready)).or screen.controls := by
  induction ops generalizing d screen with
  | nil => rfl
  | cons timed rest ih =>
    obtain ⟨now, op⟩ := timed
    have ht : Transition now d op (d.perform now op) := perform_transition hd.coherent op
    have hnext := ht.mirrors hd hm
    rw [run, Turn.andThen, Screen.after_append, ih (ht.consistent hd) hnext, phases,
      lastServing_cons]
    cases hserves : (d.perform now op).turn.dialog.phase.serves with
    | true =>
      rw [hnext.controls_eq hserves]
      cases lastServing ((d.perform now op).turn.dialog.phases rest) <;> simp
    | false =>
      rw [ht.controls_eq screen hserves]
      simp

/-- After any run of a view, loading or not, the controls are on offer exactly if the view was
ready when it last was ready or sending, and withdrawn exactly if it was sending then. -/
theorem Dialog.run_controls (settings : DialogSettings) (ops : List (Int64 × Operation)) :
    let screen := Screen.applyAll {} (hostCallsOf ((create settings).run ops).effects)
    let last := lastServing ((create settings).phases ops)
    (screen.controls = some true ↔ last = some .ready) ∧
      (screen.controls = some false ↔ last = some .dispatching) := by
  intro screen last
  have hcontrols : screen.controls = last.map (· == .ready) := by
    have hrun := controls_run (consistent_create settings) (.create settings) ops
    rwa [Option.or_none] at hrun
  have hserves : ∀ p, last = some p → p.serves = true := by
    intro p h
    exact (List.mem_filter.mp (List.mem_of_getLast? h)).2
  rw [hcontrols]
  cases h : last with
  | none => simp
  | some p => cases p <;> simp_all [Phase.serves]

def reopening : List (Int64 × Operation) :=
  [(0, .openOn default), (0, .deliver ⟨⟨1⟩, .loaded (.ok [])⟩), (0, .openOn default)]

/-- The items of the second session are not there yet, and the controls of the first are still on
offer. -/
theorem Dialog.controls_outlive_session :
    ((create ⟨25, 300, 0⟩).run reopening).dialog.phase = .loading ∧
      (Screen.applyAll {} (hostCallsOf
        ((create ⟨25, 300, 0⟩).run reopening).effects)).controls = some true := by
  exact ⟨rfl, rfl⟩

end FeedDesk
