import FeedDesk.Dialog.Controller

/-!
# The transitions of a view

Every operation changes a view in one of a few ways. `Transition` lists them with the condition
of each, the view afterwards and the effects in order; `perform_transition` says that there are no
others. What is proved of all runs is proved by going through this list.
-/
namespace FeedDesk

def Session.signOff (s : Session) : List Effect :=
  if s.transmitVisible then [.host (.transmit false)] else []

def Session.unsigned (s : Session) : Session := { s with transmitVisible := false }

def Session.closing (s : Session) : List Effect :=
  .abandonTasks :: (s.signOff ++
    [.host (.loading false), .host .clearTable, .host .resumeRefresh])

def FeedSource.opening (source : FeedSource) (token : SessionToken) : List Effect :=
  [.host .pauseRefresh, .host (.title source.title), .host (.loading true),
    .start (.load token source.call)]

/-- Why a report ends the loading of a feed without items to show, if it does. -/
def Report.loadError? : Report → Option LoadError
  | .loaded (.error e) => some (.remote e)
  | .loaded (.ok items) => (duplicateUrl items).map .duplicateUrl
  | .panicked .load text => some (.panicked text)
  | _ => none

/-- The table of a session's items, and the latch after it was computed. -/
def Session.tabled (s : Session) (items : List Item) (clock : Clock) : Projection × NamesLatch :=
  Projection.latched s.latch items s.filter s.naming clock

/-- A session that shows its items anew, on the first page. -/
def Session.shown (s : Session) (items : List Item) (clock : Clock) : Session :=
  { s with
    items := some items
    projection := some (s.tabled items clock).1
    latch := (s.tabled items clock).2
    page := 1 }

namespace Dialog

/-- A view has a session as long as it is open. -/
def Coherent (d : Dialog) : Prop := d.session = none ↔ d.phase = .closed

def left (d : Dialog) : Dialog := { d with session := none, phase := .closed }

def entered (source : FeedSource) (d : Dialog) : Dialog :=
  { d with
    lastToken := d.lastToken.next
    session := some (.fresh d.lastToken.next source)
    phase := .loading }

def within (d : Dialog) (phase : Phase) (s : Session) : Dialog :=
  { d with session := some s, phase := phase }

def clock (d : Dialog) (now : Int64) : Clock := ⟨now, d.settings.zone⟩

def tableEffects (d : Dialog) (p : Projection) : List Effect :=
  [.host (.table p (p.needsPager d.settings.pageSize)), .host (.page 1)]

def batchEffects (d : Dialog) (s : Session) (queue : JobQueue) : List Effect :=
  [.host (.controls false), .start (.timer s.token (s.batch + 1) d.settings.transmitDelay),
    .start (.dispatch s.token (s.batch + 1) s.defaults queue)]

def Awaits (d : Dialog) (s : Session) (report : Report) : Prop :=
  match d.phase, report with
  | .loading, .loaded _ => True
  | .loading, .panicked .load _ => True
  | .dispatching, .progress .. => True
  | .dispatching, .finished batch _ => s.batch = batch
  | .dispatching, .timeElapsed batch => s.batch = batch
  | .dispatching, .panicked .dispatch _ => True
  | _, _ => False

/-- Whether an event has an effect on a view: it is for the open session, and the view waits for
what it reports. -/
def Heeds (d : Dialog) (event : Event) : Prop :=
  ∃ s, d.session = some s ∧ s.token = event.token ∧ d.Awaits s event.report

/-! ## The parts of a step -/

variable {d : Dialog} {s : Session} {now : Int64}

theorem hideTransmit_of_session (h : d.session = some s) :
    d.hideTransmit = ⟨d.within d.phase s.unsigned, s.signOff⟩ := by
  obtain ⟨settings, phase, session, lastToken⟩ := d
  subst h
  obtain ⟨_, _, _, _, _, _, _, _, _, _, visible, _⟩ := s
  cases visible <;> rfl

theorem close_of_closed (h : d.phase = .closed) : d.close = .idle d := by
  simp [close, h]

theorem close_of_open (hp : d.phase ≠ .closed) (hs : d.session = some s) :
    d.close = ⟨d.left, s.closing⟩ := by
  simp only [close, hp, if_false, Turn.andThen, hideTransmit_of_session hs, endSession]
  rfl

theorem failLoad_of_open (e : LoadError) (hp : d.phase ≠ .closed) (hs : d.session = some s) :
    d.failLoad e = ⟨d.left, s.closing ++ [.host (.alert "Error" e.message)]⟩ := by
  rw [failLoad, close_of_open hp hs]
  rfl

theorem refresh_of_items {items : List Item} (hs : d.session = some s)
    (hi : s.items = some items) :
    d.refresh now = ⟨d.within d.phase (s.shown items (d.clock now)),
      d.tableEffects (s.tabled items (d.clock now)).1⟩ := by
  obtain ⟨settings, phase, session, lastToken⟩ := d
  subst hs
  obtain ⟨_, _, _, _, _, _, _, _, _, _, _, _⟩ := s
  subst hi
  rfl

theorem whenReady_of_ne (hp : d.phase ≠ .ready) (step : Session → Reply) :
    d.whenReady step = ⟨.error (.notReady d.phase), .idle d⟩ := by
  obtain ⟨settings, phase, session, lastToken⟩ := d
  cases phase <;> first | rfl | exact absurd rfl hp

theorem whenReady_of_ready (hp : d.phase = .ready) (hs : d.session = some s)
    (step : Session → Reply) : d.whenReady step = step s := by
  simp [whenReady, hp, hs]

theorem heeds_iff (hs : d.session = some s) (report : Report) :
    d.Heeds ⟨s.token, report⟩ ↔ d.Awaits s report := by
  constructor
  · rintro ⟨s', hs', -, h⟩
    obtain rfl : s = s' := Option.some.inj (hs.symm.trans hs')
    exact h
  · exact fun h => ⟨s, hs, rfl, h⟩

end Dialog

/-! ## The list of transitions -/

/-- The operations that only a ready view takes. -/
def Operation.NeedsReady : Operation → Prop
  | .setFilter _ | .setNaming _ | .fetch _ | .retry => True
  | .openOn _ | .cancel | .deliver _ => False

/-- The ways in which an operation at a time changes a view. -/
inductive Transition (now : Int64) (d : Dialog) : Operation → Reply → Prop
  | refused (op : Operation) (hop : op.NeedsReady) (hp : d.phase ≠ .ready) :
    Transition now d op ⟨.error (.notReady d.phase), .idle d⟩
  | opened (source : FeedSource) (hp : d.phase = .closed) :
    Transition now d (.openOn source)
      ⟨.ok (), ⟨d.entered source, source.opening d.lastToken.next⟩⟩
  | reopened (source : FeedSource) (s : Session) (hp : d.phase ≠ .closed)
      (hs : d.session = some s) :
    Transition now d (.openOn source)
      ⟨.ok (), ⟨d.entered source, s.closing ++ source.opening d.lastToken.next⟩⟩
  | unopened (hp : d.phase = .closed) : Transition now d .cancel ⟨.ok (), .idle d⟩
  | cancelled (s : Session) (hp : d.phase ≠ .closed) (hs : d.session = some s) :
    Transition now d .cancel ⟨.ok (), ⟨d.left, s.closing⟩⟩
  | filtered (filter : StatusFilter) (s : Session) (hp : d.phase = .ready)
      (hs : d.session = some s) :
    Transition now d (.setFilter filter) ⟨.ok (), (d.within d.phase { s with filter }).refresh now⟩
  | renamed (naming : Naming) (s : Session) (hp : d.phase = .ready) (hs : d.session = some s) :
    Transition now d (.setNaming naming) ⟨.ok (), (d.within d.phase { s with naming }).refresh now⟩
  | unchecked (checked : List String) (s : Session) (hp : d.phase = .ready)
      (hs : d.session = some s) (hq : JobQueue.ofSelection? s.loadedItems checked = none) :
    Transition now d (.fetch checked)
      ⟨.error .emptySelection, ⟨d, [.host (.notify .selectItems)]⟩⟩
  | fetched (checked : List String) (queue : JobQueue) (s : Session) (hp : d.phase = .ready)
      (hs : d.session = some s) (hq : JobQueue.ofSelection? s.loadedItems checked = some queue) :
    Transition now d (.fetch checked) ⟨.ok (),
      ⟨d.within .dispatching { s with pendingRetry := none, batch := s.batch + 1 },
        d.batchEffects s queue⟩⟩
  | unfailed (s : Session) (hp : d.phase = .ready) (hs : d.session = some s)
      (hr : s.pendingRetry = none) :
    Transition now d .retry ⟨.error .nothingToRetry, .idle d⟩
  | retried (failure : BatchFailure) (s : Session) (hp : d.phase = .ready)
      (hs : d.session = some s) (hr : s.pendingRetry = some failure) :
    Transition now d .retry ⟨.ok (),
      ⟨d.within .dispatching { s with pendingRetry := none, batch := s.batch + 1 },
        d.batchEffects s failure.retryQueue⟩⟩
  | unheeded (event : Event) (he : ¬ d.Heeds event) :
    Transition now d (.deliver event) ⟨.ok (), .idle d⟩
  | loadFailed (report : Report) (e : LoadError) (s : Session) (hp : d.phase = .loading)
      (hs : d.session = some s) (he : report.loadError? = some e) :
    Transition now d (.deliver ⟨s.token, report⟩)
      ⟨.ok (), ⟨d.left, s.closing ++ [.host (.alert "Error" e.message)]⟩⟩
  | loaded (items : List Item) (s : Session) (hp : d.phase = .loading) (hs : d.session = some s)
      (hi : duplicateUrl items = none) :
    Transition now d (.deliver ⟨s.token, .loaded (.ok items)⟩)
      ⟨.ok (), ⟨d.within .ready (s.shown items (d.clock now)),
        .host (.loading false) :: (d.tableEffects (s.tabled items (d.clock now)).1 ++
          [.host (.controls true)])⟩⟩
  | progressed (done total : Nat) (s : Session) (hp : d.phase = .dispatching)
      (hs : d.session = some s) :
    Transition now d (.deliver ⟨s.token, .progress done total⟩)
      ⟨.ok (), ⟨d, [.host (.progress done total)]⟩⟩
  | timeElapsed (s : Session) (hp : d.phase = .dispatching) (hs : d.session = some s) :
    Transition now d (.deliver ⟨s.token, .timeElapsed s.batch⟩)
      ⟨.ok (), ⟨d.within .dispatching { s with transmitVisible := true },
        [.host (.transmit true)]⟩⟩
  | completed (jobs : List Job) (s : Session) (hp : d.phase = .dispatching)
      (hs : d.session = some s) :
    Transition now d (.deliver ⟨s.token, .finished s.batch (.ok jobs)⟩)
      ⟨.ok (), ⟨d.left, s.signOff ++ s.unsigned.closing ++
        [.host (.notify (.fetched jobs.length))]⟩⟩
  | halted (failure : BatchFailure) (s : Session) (hp : d.phase = .dispatching)
      (hs : d.session = some s) :
    Transition now d (.deliver ⟨s.token, .finished s.batch (.error failure)⟩)
      ⟨.ok (), ⟨d.within .ready { s.unsigned with pendingRetry := some failure },
        s.signOff ++ [.host (.controls true), .host (.alert "Error" failure.report)]⟩⟩
  | brokenOff (text : String) (s : Session) (hp : d.phase = .dispatching)
      (hs : d.session = some s) :
    Transition now d (.deliver ⟨s.token, .panicked .dispatch text⟩)
      ⟨.ok (), ⟨d.within .ready s.unsigned,
        s.signOff ++ [.host (.controls true), .host (.alert "Error" (batchPanicMessage text))]⟩⟩

/-! ## There are no other transitions -/

section
variable {now : Int64} {d : Dialog}

theorem Dialog.Coherent.exists_session (hd : d.Coherent) (hp : d.phase ≠ .closed) :
    ∃ s, d.session = some s := by
  rw [← Option.isSome_iff_exists, Option.isSome_iff_ne_none]
  exact fun h => hp (hd.mp h)

theorem Dialog.close_dialog (hd : d.Coherent) : d.close.dialog = d.left := by
  by_cases hp : d.phase = .closed
  · have hs : d.session = none := hd.mpr hp
    rw [close_of_closed hp]
    simp [Turn.idle, left, ← hp, ← hs]
  · obtain ⟨s, hs⟩ := hd.exists_session hp
    rw [close_of_open hp hs]

theorem openOn_transition (hd : d.Coherent) (source : FeedSource) :
    Transition now d (.openOn source) ⟨.ok (), d.openOn source⟩ := by
  by_cases hp : d.phase = .closed
  · rw [Dialog.openOn, Dialog.close_of_closed hp]
    exact .opened source hp
  · obtain ⟨s, hs⟩ := hd.exists_session hp
    rw [Dialog.openOn, Dialog.close_of_open hp hs]
    exact .reopened source s hp hs

theorem cancel_transition (hd : d.Coherent) : Transition now d .cancel ⟨.ok (), d.close⟩ := by
  by_cases hp : d.phase = .closed
  · rw [Dialog.close_of_closed hp]
    exact .unopened hp
  · obtain ⟨s, hs⟩ := hd.exists_session hp
    rw [Dialog.close_of_open hp hs]
    exact .cancelled s hp hs

theorem whenReady_transition (hd : d.Coherent) {op : Operation} (hop : op.NeedsReady)
    {step : Session → Reply}
    (hstep : ∀ s, d.phase = .ready → d.session = some s → Transition now d op (step s)) :
    Transition now d op (d.whenReady step) := by
  by_cases hp : d.phase = .ready
  · obtain ⟨s, hs⟩ := hd.exists_session (by simp [hp])
    rw [Dialog.whenReady_of_ready hp hs]
    exact hstep s hp hs
  · rw [Dialog.whenReady_of_ne hp]
    exact .refused op hop hp

theorem fetch_transition (hd : d.Coherent) (checked : List String) :
    Transition now d (.fetch checked) (d.fetch checked) := by
  apply whenReady_transition hd (by exact trivial)
  intro s hp hs
  cases hq : JobQueue.ofSelection? s.loadedItems checked with
  | none => exact .unchecked checked s hp hs hq
  | some queue => exact .fetched checked queue s hp hs hq

theorem retry_transition (hd : d.Coherent) : Transition now d .retry d.retry := by
  apply whenReady_transition hd (by exact trivial)
  intro s hp hs
  cases hr : s.pendingRetry with
  | none => exact .unfailed s hp hs hr
  | some failure => exact .retried failure s hp hs hr

theorem unawaited_transition {s : Session} (hs : d.session = some s) {report : Report}
    (h : ¬ d.Awaits s report) : Transition now d (.deliver ⟨s.token, report⟩) ⟨.ok (), .idle d⟩ :=
  .unheeded _ fun heeds => h ((Dialog.heeds_iff hs report).mp heeds)

theorem onLoaded_transition {s : Session} (hs : d.session = some s)
    (result : Answer (List Item)) :
    Transition now d (.deliver ⟨s.token, .loaded result⟩)
      ⟨.ok (), d.onLoaded now result s⟩ := by
  by_cases hp : d.phase = .loading
  · have hopen : d.phase ≠ .closed := by simp [hp]
    rw [Dialog.onLoaded.eq_def, if_neg (Decidable.not_not.mpr hp)]
    cases result with
    | error e =>
      simp only [Dialog.failLoad_of_open _ hopen hs]
      exact .loadFailed _ _ s hp hs rfl
    | ok items =>
      cases hi : duplicateUrl items with
      | none =>
        simp only [hi]
        exact .loaded items s hp hs hi
      | some url =>
        have he : (Report.loaded (.ok items)).loadError? = some (.duplicateUrl url) := by
          simp [Report.loadError?, hi]
        simp only [hi, Dialog.failLoad_of_open _ hopen hs]
        exact .loadFailed _ _ s hp hs he
  · rw [Dialog.onLoaded.eq_def, if_pos hp]
    exact unawaited_transition hs (by simp [Dialog.Awaits, hp])

theorem onFinished_transition {s : Session} (hs : d.session = some s) (batch : UInt64)
    (result : BatchResult) :
    Transition now d (.deliver ⟨s.token, .finished batch result⟩)
      ⟨.ok (), d.onFinished batch result s⟩ := by
  by_cases h : d.phase = .dispatching ∧ s.batch = batch
  · obtain ⟨hp, rfl⟩ := h
    rw [Dialog.onFinished.eq_def, if_neg (by simp [hp]), Dialog.hideTransmit_of_session hs]
    cases result with
    | error failure => exact .halted failure s hp hs
    | ok jobs =>
      have hopen : (d.within d.phase s.unsigned).phase ≠ .closed := by simp [Dialog.within, hp]
      simp only [Turn.andThen, Dialog.close_of_open hopen rfl, ← List.append_assoc]
      exact .completed jobs s hp hs
  · rw [Dialog.onFinished.eq_def, if_pos (Decidable.not_and_iff_not_or_not.mp h)]
    refine unawaited_transition hs fun awaits => h ?_
    simp only [Dialog.Awaits] at awaits
    split at awaits <;> simp_all

theorem onProgress_transition {s : Session} (hs : d.session = some s) (done total : Nat) :
    Transition now d (.deliver ⟨s.token, .progress done total⟩)
      ⟨.ok (), d.onProgress done total⟩ := by
  by_cases hp : d.phase = .dispatching
  · rw [Dialog.onProgress, if_pos hp]
    exact .progressed done total s hp hs
  · rw [Dialog.onProgress, if_neg hp]
    exact unawaited_transition hs (by simp [Dialog.Awaits, hp])

theorem onTimeElapsed_transition {s : Session} (hs : d.session = some s) (batch : UInt64) :
    Transition now d (.deliver ⟨s.token, .timeElapsed batch⟩)
      ⟨.ok (), d.onTimeElapsed batch s⟩ := by
  by_cases h : d.phase = .dispatching ∧ s.batch = batch
  · obtain ⟨hp, rfl⟩ := h
    rw [Dialog.onTimeElapsed, if_pos ⟨hp, rfl⟩]
    simpa only [Dialog.within, ← hp] using Transition.timeElapsed s hp hs
  · rw [Dialog.onTimeElapsed, if_neg h]
    refine unawaited_transition hs fun awaits => h ?_
    simp only [Dialog.Awaits] at awaits
    split at awaits <;> simp_all

theorem onPanicked_transition {s : Session} (hs : d.session = some s) (task : TaskKind)
    (text : String) :
    Transition now d (.deliver ⟨s.token, .panicked task text⟩)
      ⟨.ok (), d.onPanicked task text⟩ := by
  by_cases hl : d.phase = .loading ∧ task = .load
  · obtain ⟨hp, rfl⟩ := hl
    have hopen : d.phase ≠ .closed := by simp [hp]
    simp only [Dialog.onPanicked, hp, Dialog.failLoad_of_open _ hopen hs]
    exact .loadFailed _ _ s hp hs rfl
  · by_cases hb : d.phase = .dispatching ∧ task = .dispatch
    · obtain ⟨hp, rfl⟩ := hb
      simp only [Dialog.onPanicked, hp, Dialog.hideTransmit_of_session hs]
      exact .brokenOff text s hp hs
    · have hd : ¬ d.Awaits s (.panicked task text) := by
        cases hp : d.phase <;> cases task <;> simp_all [Dialog.Awaits]
      have hi : d.onPanicked task text = .idle d := by
        cases hp : d.phase <;> cases task <;> simp_all [Dialog.onPanicked]
      rw [hi]
      exact unawaited_transition hs hd

theorem handle_transition (event : Event) :
    Transition now d (.deliver event) ⟨.ok (), d.handle now event⟩ := by
  obtain ⟨token, report⟩ := event
  cases hs : d.session with
  | none =>
    rw [Dialog.handle, hs]
    exact .unheeded _ fun ⟨_, h, _⟩ => by simp [hs] at h
  | some s =>
    simp only [Dialog.handle, hs]
    by_cases ht : s.token = token
    · subst ht
      simp only [ne_eq, not_true_eq_false, if_false]
      cases report with
      | loaded result => exact onLoaded_transition hs result
      | finished batch result => exact onFinished_transition hs batch result
      | panicked task text => exact onPanicked_transition hs task text
      | progress done total => exact onProgress_transition hs done total
      | timeElapsed batch => exact onTimeElapsed_transition hs batch
    · rw [if_pos ht]
      refine .unheeded _ ?_
      rintro ⟨s', hs', ht', -⟩
      obtain rfl : s = s' := Option.some.inj (hs.symm.trans hs')
      exact ht ht'

theorem Report.awaited_of_loadError {report : Report} {e : LoadError}
    (h : report.loadError? = some e) (hp : d.phase = .loading) (s : Session) :
    d.Awaits s report := by
  cases report with
  | loaded result => simp [Dialog.Awaits, hp]
  | panicked task text => cases task <;> simp_all [Dialog.Awaits, loadError?]
  | progress | finished | timeElapsed => simp [loadError?] at h

theorem Dialog.handle_of_unheeded {event : Event} (h : ¬ d.Heeds event) :
    d.handle now event = .idle d := by
  have turn {op : Operation} {r : Reply} (ht : Transition now d op r)
      (hop : op = .deliver event) : r.turn = .idle d := by
    cases ht with
    | refused _ hne => exact absurd hne (hop ▸ id)
    | unheeded => rfl
    | loadFailed report e s hp hs he =>
      obtain rfl := Operation.deliver.inj hop
      exact absurd ⟨s, hs, rfl, Report.awaited_of_loadError he hp s⟩ h
    | loaded items s hp hs | progressed _ _ s hp hs | timeElapsed s hp hs
    | completed _ s hp hs | halted _ s hp hs | brokenOff _ s hp hs =>
      obtain rfl := Operation.deliver.inj hop
      exact absurd ⟨s, hs, rfl, by simp [Awaits, hp]⟩ h
    | _ => cases hop
  exact turn (handle_transition event) rfl

/-- An operation changes a view in one of the listed ways. -/
theorem perform_transition (hd : d.Coherent) (op : Operation) :
    Transition now d op (d.perform now op) := by
  cases op with
  | openOn source => exact openOn_transition hd source
  | setFilter filter =>
    exact whenReady_transition hd (by exact trivial) fun s hp hs => .filtered filter s hp hs
  | setNaming naming =>
    exact whenReady_transition hd (by exact trivial) fun s hp hs => .renamed naming s hp hs
  | fetch checked => exact fetch_transition hd checked
  | retry => exact retry_transition hd
  | cancel => exact cancel_transition hd
  | deliver event => exact handle_transition event

end

end FeedDesk
