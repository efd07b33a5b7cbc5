import FeedDesk.Host.Screen
import FeedDesk.Proofs.Dialog.Consistency

/-!
# What the operator sees

The screen is what the calls to the host come to. After any operations and events whatever it
shows what the view holds: a sign of loading while items are loaded, the table of the session once
they are there, the transmit sign as long as the session has it up, and controls that are offered
while the view is ready and withdrawn while a batch is sent. A view that is closed leaves no table
and no sign behind.
-/
namespace FeedDesk

def Screen.after (screen : Screen) (effects : List Effect) : Screen :=
  screen.applyAll (hostCallsOf effects)

/-- A screen that shows what a view holds. -/
structure Screen.Mirrors (screen : Screen) (d : Dialog) : Prop where
  loading : screen.loading = true ↔ d.phase = .loading
  table : d.phase = .ready ∨ d.phase = .dispatching → ∃ s p, d.session = some s ∧
    s.projection = some p ∧
    screen.table = some ⟨p, decide (d.settings.pageSize < p.rows.length)⟩
  cleared : d.phase = .loading ∨ d.phase = .closed → screen.table = none
  transmit : screen.transmit = true ↔ ∃ s, d.session = some s ∧ s.transmitVisible = true
  offered : d.phase = .ready → screen.controls = some true
  withdrawn : d.phase = .dispatching → screen.controls = some false
  title : ∀ s, d.session = some s → screen.title = s.title
  page : screen.table.isSome → screen.page = 1

namespace Screen

variable {screen : Screen} {d : Dialog} {s : Session}

/-! ## The screen after a part of a step -/

@[simp] theorem after_append (a b : List Effect) :
    screen.after (a ++ b) = (screen.after a).after b := by
  simp [after, applyAll]

theorem after_signOff (s : Session) :
    screen.after s.signOff = { screen with transmit := screen.transmit && !s.transmitVisible } := by
  obtain ⟨_, _, _, _, _, transmit⟩ := screen
  unfold Session.signOff
  cases s.transmitVisible <;> cases transmit <;> rfl

theorem after_closing (s : Session) :
    screen.after s.closing =
      { screen with
        transmit := screen.transmit && !s.transmitVisible
        loading := false
        table := none } := by
  have hcalls : screen.after s.closing =
      (screen.after s.signOff).after [.host (.loading false), .host .clearTable,
        .host .resumeRefresh] := by
    rw [← after_append]
    rfl
  rw [hcalls, after_signOff]
  rfl

theorem after_opening (source : FeedSource) (token : SessionToken) :
    screen.after (source.opening token) =
      { screen with title := source.title, loading := true } := rfl

theorem after_table (d : Dialog) (p : Projection) :
    screen.after (d.tableEffects p) =
      { screen with
        table := some ⟨p, decide (d.settings.pageSize < p.rows.length)⟩
        page := 1 } := rfl

/-! ## Steps of the view -/

namespace Mirrors

theorem create (settings : DialogSettings) : ({} : Screen).Mirrors (.create settings) := by
  constructor <;> simp [Dialog.create]

theorem transmit_eq (hm : screen.Mirrors d) (hs : d.session = some s) :
    screen.transmit = s.transmitVisible := by
  rw [Bool.eq_iff_iff, hm.transmit]
  simp [hs]

theorem unsigned (hm : screen.Mirrors d) (hs : d.session = some s) :
    (screen.after s.signOff).Mirrors (d.within d.phase s.unsigned) := by
  rw [after_signOff, hm.transmit_eq hs]
  refine ⟨hm.loading, fun h => ?_, hm.cleared, ?_, hm.offered, hm.withdrawn, ?_, hm.page⟩
  · obtain ⟨s', p, hs', hp, ht⟩ := hm.table h
    obtain rfl : s = s' := Option.some.inj (hs.symm.trans hs')
    exact ⟨s.unsigned, p, rfl, hp, ht⟩
  · simp [Dialog.within, Session.unsigned]
  · rintro _ ⟨⟩
    exact hm.title s hs

theorem left (hm : screen.Mirrors d) (hs : d.session = some s) :
    (screen.after s.closing).Mirrors d.left := by
  rw [after_closing, hm.transmit_eq hs]
  constructor <;> simp [Dialog.left]

theorem entered (hm : screen.Mirrors d) (hp : d.phase = .closed) (hs : d.session = none)
    (source : FeedSource) (token : SessionToken) :
    (screen.after (source.opening token)).Mirrors (d.entered source) := by
  have htransmit := hm.transmit
  have htable := hm.cleared (.inr hp)
  rw [after_opening]
  constructor <;> simp_all [Dialog.entered, Session.fresh]

theorem shown {items : List Item} {clock : Clock} (hl : screen.loading = false)
    (hc : screen.controls = some true) (hsign : screen.transmit = s.transmitVisible)
    (ht : screen.title = s.title) (d : Dialog) :
    (screen.after (d.tableEffects (s.tabled items clock).1)).Mirrors
      (d.within .ready (s.shown items clock)) := by
  rw [after_table]
  constructor
  case table => exact fun _ => ⟨_, _, rfl, rfl, rfl⟩
  all_goals simp [Dialog.within, Session.shown, hl, hc, hsign, ht]

theorem loaded {items : List Item} {clock : Clock} (hm : screen.Mirrors d)
    (hs : d.session = some s) :
    (screen.after (.host (.loading false) :: (d.tableEffects (s.tabled items clock).1 ++
      [.host (.controls true)]))).Mirrors (d.within .ready (s.shown items clock)) := by
  have hsign : ({ screen with loading := false, controls := some true } : Screen).transmit =
      s.transmitVisible := hm.transmit_eq hs
  exact shown rfl rfl hsign (hm.title s hs) d

theorem refreshed {s' : Session} (hm : screen.Mirrors d) (hs : d.session = some s)
    (hp : d.phase = .ready) (hfits : s'.Fits .ready) (ht : s'.title = s.title)
    (hsign : s'.transmitVisible = s.transmitVisible) (now : Int64) :
    (screen.after ((d.within d.phase s').refresh now).effects).Mirrors
      ((d.within d.phase s').refresh now).dialog := by
  obtain ⟨⟨items, hi, -⟩, -⟩ := hfits.loaded (.inl rfl)
  have hl : screen.loading = false := by
    rw [Bool.eq_false_iff, ne_eq, hm.loading, hp]
    simp
  rw [Dialog.refresh_of_items rfl hi, hp]
  exact .shown hl (hm.offered hp) ((hm.transmit_eq hs).trans hsign.symm)
    ((hm.title s hs).trans ht.symm) _

/-- The controls are set when a batch begins and when one has ended without closing the view. -/
theorem served {phase : Phase} {s' : Session} (hm : screen.Mirrors d) (hs : d.session = some s)
    (hp : d.phase = .ready ∨ d.phase = .dispatching) (hp' : phase = .ready ∨ phase = .dispatching)
    (ht : s'.title = s.title) (hproj : s'.projection = s.projection)
    (hsign : s'.transmitVisible = s.transmitVisible) :
    (screen.after [.host (.controls (decide (phase = .ready)))]).Mirrors (d.within phase s') := by
  have htransmit := hm.transmit_eq hs
  obtain ⟨s₀, p, hs₀, hp₀, htable⟩ := hm.table hp
  obtain rfl : s = s₀ := Option.some.inj (hs.symm.trans hs₀)
  have hbusy : phase ≠ .loading ∧ phase ≠ .closed := by
    rcases hp' with rfl | rfl <;> simp
  constructor
  case loading =>
    have hquiet : d.phase ≠ .loading := by
      rcases hp with hp | hp <;> simp [hp]
    exact iff_of_false (fun h => hquiet (hm.loading.mp h)) hbusy.1
  case table => exact fun _ => ⟨s', p, rfl, hproj.trans hp₀, htable⟩
  case cleared => exact fun h => absurd h (not_or.mpr hbusy)
  case transmit =>
    change screen.transmit = true ↔ _
    simp [Dialog.within, htransmit, hsign]
  case offered =>
    rintro ⟨⟩
    rfl
  case withdrawn =>
    rintro ⟨⟩
    rfl
  case title =>
    rintro _ ⟨⟩
    exact (hm.title s hs).trans ht.symm
  case page => exact hm.page

theorem signed (hm : screen.Mirrors d) (hs : d.session = some s) :
    (screen.after [.host (.transmit true)]).Mirrors
      (d.within d.phase { s with transmitVisible := true }) := by
  refine ⟨hm.loading, fun h => ?_, hm.cleared, ?_, hm.offered, hm.withdrawn, ?_, hm.page⟩
  · obtain ⟨s', p, hs', hp, ht⟩ := hm.table h
    obtain rfl : s = s' := Option.some.inj (hs.symm.trans hs')
    exact ⟨_, p, rfl, hp, ht⟩
  · simp [Dialog.within, after, applyAll, apply]
  · rintro _ ⟨⟩
    exact hm.title s hs

end Mirrors

end Screen

theorem Transition.settings_eq {now : Int64} {d : Dialog} {op : Operation} {r : Reply}
    (h : Transition now d op r) : r.turn.dialog.settings = d.settings := by
  cases h with
  | filtered | renamed =>
    unfold Dialog.refresh
    split <;> rfl
  | _ => rfl

theorem Transition.mirrors {now : Int64} {screen : Screen} {d : Dialog} {op : Operation}
    {r : Reply} (h : Transition now d op r) (hd : d.Consistent) (hm : screen.Mirrors d) :
    (screen.after r.turn.effects).Mirrors r.turn.dialog := by
  have fits {s : Session} (hs : d.session = some s) (hp : d.phase = .ready) : s.Fits .ready :=
    hp ▸ hd.session_fits s hs
  cases h with
  | refused | unopened | unfailed | unheeded | unchecked | progressed => exact hm
  | opened source hp => exact hm.entered hp (hd.session_none_iff.mpr hp) source _
  | reopened source s hp hs =>
    rw [Screen.after_append]
    exact (hm.left hs).entered rfl rfl source _
  | cancelled s hp hs => exact hm.left hs
  | loadFailed report e s hp hs =>
    rw [Screen.after_append]
    exact hm.left hs
  | completed jobs s hp hs =>
    rw [Screen.after_append, Screen.after_append]
    exact (hm.unsigned hs).left rfl
  | filtered filter s hp hs =>
    exact hm.refreshed hs hp ((fits hs hp).filtered filter) (by rfl) (by rfl) now
  | renamed naming s hp hs =>
    exact hm.refreshed hs hp ((fits hs hp).renamed naming) (by rfl) (by rfl) now
  | fetched checked queue s hp hs => exact hm.served hs (.inl hp) (.inr rfl) rfl rfl rfl
  | retried failure s hp hs => exact hm.served hs (.inl hp) (.inr rfl) rfl rfl rfl
  | loaded items s hp hs => exact hm.loaded hs
  | timeElapsed s hp hs => exact hp ▸ hm.signed hs
  | halted failure s hp hs =>
    rw [Screen.after_append]
    exact (hm.unsigned hs).served rfl (.inr hp) (.inl rfl) rfl rfl rfl
  | brokenOff text s hp hs =>
    rw [Screen.after_append]
    exact (hm.unsigned hs).served rfl (.inr hp) (.inl rfl) rfl rfl rfl

/-- After any run of a view the screen, which is what all calls to the host come to, shows what the
view holds. The transmit sign is up in no phase but while a batch is sent. -/
theorem Dialog.run_mirrored (settings : DialogSettings) (ops : List (Int64 × Operation)) :
    let t := (create settings).run ops
    let screen := Screen.applyAll {} (hostCallsOf t.effects)
    t.dialog.settings = settings ∧ screen.Mirrors t.dialog ∧
      (t.dialog.phase ≠ .dispatching → screen.transmit = false) := by
  intro t screen
  have inv : t.dialog.Consistent ∧ t.dialog.settings = settings ∧ screen.Mirrors t.dialog := by
    refine run_create_induction (P := fun past d => d.Consistent ∧ d.settings = settings ∧
      (({} : Screen).after past).Mirrors d) ?_ settings
      ⟨consistent_create settings, rfl, .create settings⟩ ops
    intro now past d op r ht _ h
    rw [Screen.after_append]
    exact ⟨ht.consistent h.1, ht.settings_eq.trans h.2.1, ht.mirrors h.1 h.2.2⟩
  refine ⟨inv.2.1, inv.2.2, fun hp => ?_⟩
  rw [Bool.eq_false_iff]
  intro hup
  obtain ⟨s, hs, hsign⟩ := inv.2.2.transmit.mp hup
  exact hp ((inv.1.session_fits s hs).sign hsign)

end FeedDesk
