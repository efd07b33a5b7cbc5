import FeedDesk.Proofs.Desk.Loading

/-!
# Feeds that do not load

Whether a feed is shown is decided when the call for its items ends. A list of items with different
addresses is shown. An address that repeats, an error and a call that broke off all end the same
way: the view closes, the host refreshes again and is told once what went wrong, and no table was
ever on the screen.
-/
namespace FeedDesk

/-- Whether a call for items ends with a list of them, no two under one address. -/
def CallOutcome.ListsDistinct (outcome : CallOutcome (List Item)) : Prop :=
  ∃ items, outcome = .answers (.ok items) ∧ (items.map Item.url).Nodup

def HostCall.isAlert : HostCall → Bool
  | .alert .. => true
  | _ => false

def Session.openingCalls (s : Session) : List HostCall :=
  [.pauseRefresh, .title s.title, .loading true]

/-- Some calls to the host, if there are any, begin with those of a new session. -/
def BeginAnew (calls : List HostCall) : Prop := ∀ call ∈ calls.head?, call = .pauseRefresh

/-- The calls to the host of a session from the pause of the refresh at its beginning to the alert
about its items that were never shown. -/
structure ClosesUnshown (e : LoadError) (calls : List HostCall) : Prop where
  opening : ∃ rest, calls = .pauseRefresh :: rest ∧ .pauseRefresh ∉ rest
  no_table : ∀ call ∈ calls, call.isTable = false
  one_alert : calls.countP HostCall.isAlert = 1
  ending : ∃ earlier, calls = earlier ++ [.resumeRefresh, .alert "Error" e.message]

/-- A view that is loading has not done more for its session than begin it. -/
def Dialog.OnlyBegun (past : List Effect) (d : Dialog) : Prop :=
  ∀ s, d.phase = .loading → d.session = some s →
    ∃ before, hostCallsOf past = before ++ s.openingCalls

/-! ## The end of a load -/

/-- There are items to show exactly if they are listed under different addresses. -/
theorem loadError?_loadEvent_eq_none_iff (token : SessionToken)
    {outcome : CallOutcome (List Item)} :
    (loadEvent token outcome).report.loadError? = none ↔ outcome.ListsDistinct := by
  cases outcome with
  | breaks text => simp [loadEvent, Report.loadError?, CallOutcome.ListsDistinct]
  | answers result =>
    cases result with
    | error e => simp [loadEvent, Report.loadError?, CallOutcome.ListsDistinct]
    | ok items =>
      simp [loadEvent, Report.loadError?, CallOutcome.ListsDistinct, duplicateUrl_eq_none]

section
variable {d : Dialog} {s : Session} {now : Int64}

/-- A view that waits for its items closes if there are none to show. -/
theorem Dialog.handle_failed {report : Report} {e : LoadError} (now : Int64)
    (hp : d.phase = .loading) (hs : d.session = some s) (he : report.loadError? = some e) :
    d.handle now ⟨s.token, report⟩ =
      ⟨d.left, s.closing ++ [.host (.alert "Error" e.message)]⟩ := by
  have hopen : d.phase ≠ .closed := by simp [hp]
  have hfail : d.handle now ⟨s.token, report⟩ = d.failLoad e := by
    simp only [handle, hs, ne_eq, not_true_eq_false, if_false]
    cases report with
    | loaded result =>
      simp only [onLoaded, hp, ne_eq, not_true_eq_false, if_false]
      cases result with
      | error error =>
        obtain rfl := Option.some.inj he
        rfl
      | ok items =>
        obtain ⟨url, hurl, rfl⟩ := Option.map_eq_some_iff.mp he
        simp only [hurl]
    | panicked task text =>
      cases task with
      | load =>
        obtain rfl := Option.some.inj he
        simp only [onPanicked, hp]
      | dispatch | timer | unrelated => cases he
    | progress | finished | timeElapsed => cases he
  rw [hfail, failLoad_of_open e hopen hs]

/-- A view that waits for its items becomes ready if they can be shown. -/
theorem Dialog.handle_listed {outcome : CallOutcome (List Item)} (hp : d.phase = .loading)
    (hs : d.session = some s) (h : outcome.ListsDistinct) :
    (d.handle now (loadEvent s.token outcome)).dialog.phase = .ready := by
  obtain ⟨items, rfl, hnodup⟩ := h
  rw [loadEvent, handle_loaded now hp hs ((duplicateUrl_eq_none items).mpr hnodup)]
  rfl

/-- A view that waits for its items closes with an alert if they cannot be shown. -/
theorem Dialog.handle_unlisted {outcome : CallOutcome (List Item)} (now : Int64)
    (hp : d.phase = .loading) (hs : d.session = some s) (h : ¬ outcome.ListsDistinct) :
    ∃ e, (loadEvent s.token outcome).report.loadError? = some e ∧
      d.handle now (loadEvent s.token outcome) =
        ⟨d.left, s.closing ++ [.host (.alert "Error" e.message)]⟩ := by
  rw [← loadError?_loadEvent_eq_none_iff s.token] at h
  obtain ⟨e, he⟩ := Option.ne_none_iff_exists'.mp h
  refine ⟨e, he, ?_⟩
  cases outcome with
  | answers result => exact handle_failed now hp hs he
  | breaks text => exact handle_failed now hp hs he

/-! ## The calls of a session that shows nothing -/

/-- A session without the transmit sign makes three calls when it is closed. -/
theorem Session.hostCallsOf_closing (h : s.transmitVisible = false) :
    hostCallsOf s.closing = [.loading false, .clearTable, .resumeRefresh] := by
  simp [closing, signOff, h]

theorem Session.closesUnshown (s : Session) (e : LoadError) :
    ClosesUnshown e (s.openingCalls ++
      [.loading false, .clearTable, .resumeRefresh, .alert "Error" e.message]) where
  opening := ⟨_, rfl, by simp⟩
  no_table := by simp [openingCalls, HostCall.isTable]
  one_alert := rfl
  ending := ⟨s.openingCalls ++ [.loading false, .clearTable], by simp⟩

/-- Every step of a view keeps it that it has only begun its session while it is loading. -/
theorem Transition.onlyBegun {past : List Effect} {op : Operation} {r : Reply}
    (h : Transition now d op r) (hd : d.OnlyBegun past) :
    r.turn.dialog.OnlyBegun (past ++ r.turn.effects) := by
  cases h with
  | refused | unopened | unfailed | unheeded => simpa [Turn.idle] using hd
  | opened source =>
    rintro _ - ⟨⟩
    exact ⟨hostCallsOf past, hostCallsOf_append _ _⟩
  | reopened source s =>
    rintro _ - ⟨⟩
    rw [← List.append_assoc]
    exact ⟨hostCallsOf (past ++ s.closing), hostCallsOf_append _ _⟩
  | cancelled | loadFailed | completed | fetched | retried | loaded | timeElapsed | halted
  | brokenOff => exact fun _ hp => by cases hp
  | filtered _ _ hp | renamed _ _ hp =>
    intro _ hloading
    rw [Dialog.refresh_phase] at hloading
    exact absurd (hp.symm.trans hloading) (by simp)
  | unchecked _ _ hp | progressed _ _ _ hp =>
    exact fun _ hloading => absurd (hp.symm.trans hloading) (by simp)

/-- After any run, the last that a view has done if it waits for its items is to begin a session,
and the transmit sign is not shown. -/
theorem Dialog.waiting_run {settings : DialogSettings} {ops : List (Int64 × Operation)}
    (hp : ((create settings).run ops).dialog.phase = .loading)
    (hs : ((create settings).run ops).dialog.session = some s) :
    ∃ before, hostCallsOf ((create settings).run ops).effects = before ++ s.openingCalls ∧
      s.transmitVisible = false := by
  have inv : ((create settings).run ops).dialog.Consistent ∧
      ((create settings).run ops).dialog.OnlyBegun ((create settings).run ops).effects := by
    refine run_create_induction (P := fun past d => d.Consistent ∧ d.OnlyBegun past) ?_ settings
      ⟨consistent_create settings, fun _ hp => by cases hp⟩ ops
    exact fun now past d op r ht _ h => ⟨ht.consistent h.1, ht.onlyBegun h.2⟩
  obtain ⟨before, hbefore⟩ := inv.2 s hp hs
  obtain ⟨-, -, -, -, hsign, -⟩ := (inv.1.session_fits s hs).blank hp
  exact ⟨before, hbefore, hsign⟩

/-- A closed view stays closed until it is opened. -/
theorem Transition.of_closed {op : Operation} {r : Reply} (h : Transition now d op r)
    (hp : d.phase = .closed) :
    r.turn = .idle d ∨ ∃ source, r.turn = ⟨d.entered source, source.opening d.lastToken.next⟩ := by
  cases h with
  | refused | unopened | unheeded => exact .inl rfl
  | opened source => exact .inr ⟨source, rfl⟩
  | reopened _ _ h | cancelled _ h => exact absurd hp h
  | filtered _ _ h | renamed _ _ h | unchecked _ _ h | fetched _ _ _ h | unfailed _ h
  | retried _ _ h | loadFailed _ _ _ h | loaded _ _ h | progressed _ _ _ h | timeElapsed _ h
  | completed _ _ h | halted _ _ h | brokenOff _ _ h => exact absurd (h.symm.trans hp) (by simp)

/-- The first that the host hears of a closed view is the beginning of a session. -/
theorem Dialog.run_of_closed (hd : d.Coherent) (hp : d.phase = .closed)
    (ops : List (Int64 × Operation)) : BeginAnew (hostCallsOf (d.run ops).effects) := by
  induction ops with
  | nil => simp [run, Turn.idle, BeginAnew]
  | cons timed rest ih =>
    obtain ⟨now, op⟩ := timed
    have hstep : Transition now d op (d.perform now op) := perform_transition hd op
    rw [run, Turn.andThen]
    rcases hstep.of_closed hp with hidle | ⟨source, hopened⟩
    · rw [hidle]
      exact ih
    · rw [hopened]
      simp [BeginAnew, FeedSource.opening]

end

/-! ## The whole -/

/-- No duplicate is found exactly if the addresses of the items are pairwise distinct, and otherwise
the address of the first item that repeats one. Whatever a view has done before, if it waits for the
items of a session, then the end of their load makes it ready exactly if they are listed under
pairwise distinct addresses. Otherwise the view is closed, and whatever is done with it later, the
calls of the session are over: they show no table and make one alert, behind the end of the pause of
the refresh. -/
theorem distinct_items_decide_load :
    (∀ items : List Item, (duplicateUrl items = none ↔ (items.map Item.url).Nodup) ∧
      ∀ url, duplicateUrl items = some url ↔ ∃ i, IsLeast {i | RepeatsAt items i} i ∧
        ∃ repeated, items[i]? = some repeated ∧ repeated.url = url) ∧
    ∀ (settings : DialogSettings) (ops : List (Int64 × Operation)) (s : Session),
      ((Dialog.create settings).run ops).dialog.phase = .loading →
      ((Dialog.create settings).run ops).dialog.session = some s →
      ∀ (now : Int64) (outcome : CallOutcome (List Item)),
        let event := loadEvent s.token outcome
        let ended := (((Dialog.create settings).run ops).dialog.handle now event).dialog
        (ended.phase = .ready ↔ outcome.ListsDistinct) ∧
        (¬ outcome.ListsDistinct → ended.phase = .closed ∧ ended.session = none ∧
          ∃ e before calls, event.report.loadError? = some e ∧ ClosesUnshown e calls ∧
            s.openingCalls <+: calls ∧
            hostCallsOf ((Dialog.create settings).run ops).effects = before ++ s.openingCalls ∧
            ∀ later, ∃ after, BeginAnew after ∧
              hostCallsOf ((Dialog.create settings).run
                (ops ++ (now, .deliver event) :: later)).effects = before ++ calls ++ after) := by
  refine ⟨fun items => ⟨duplicateUrl_eq_none items, fun _ => duplicateUrl_eq_some_iff⟩, ?_⟩
  intro settings ops s hp hs now outcome event ended
  have hunlisted (h : ¬ outcome.ListsDistinct) := Dialog.handle_unlisted now hp hs h
  constructor
  · by_cases h : outcome.ListsDistinct
    · exact iff_of_true (Dialog.handle_listed hp hs h) h
    · obtain ⟨e, -, hend⟩ := hunlisted h
      have hclosed : ended.phase = .closed := by simp only [ended, event, hend, Dialog.left]
      exact iff_of_false (by simp [hclosed]) h
  · intro h
    obtain ⟨e, he, hend⟩ := hunlisted h
    have hended : ended = ((Dialog.create settings).run ops).dialog.left := by
      simp only [ended, event, hend]
    obtain ⟨before, hbefore, hsign⟩ := Dialog.waiting_run hp hs
    refine ⟨congrArg Dialog.phase hended, congrArg Dialog.session hended, e, before, _, he,
      s.closesUnshown e, List.prefix_append _ _, hbefore, fun later => ?_⟩
    -- What follows on the alert is a run of a closed view, which has no calls of its own.
    have hafter : BeginAnew (hostCallsOf (ended.run later).effects) := by
      rw [hended]
      exact Dialog.run_of_closed (Dialog.coherent_left _) rfl later
    refine ⟨_, hafter, ?_⟩
    rw [Dialog.run_append, Turn.andThen, Dialog.run, Turn.andThen, Dialog.perform, hended, hend]
    simp [hbefore, Session.hostCallsOf_closing hsign]

def waitingRun : List (Int64 × Operation) := [(0, .openOn default), (0, .setFilter .fetched)]

def repeatingLoad : CallOutcome (List Item) :=
  .answers (.ok [{ url := "a", title := "A", filename := "a" },
    { url := "b", title := "B", filename := "b" }, { url := "a", title := "A", filename := "a" }])

/-- The address that repeats is in the alert. -/
theorem repeated_address_alerted :
    ∃ s, ((Dialog.create ⟨25, 300, 0⟩).run waitingRun).dialog.phase = .loading ∧
      ((Dialog.create ⟨25, 300, 0⟩).run waitingRun).dialog.session = some s ∧
      ¬ repeatingLoad.ListsDistinct ∧
      (((Dialog.create ⟨25, 300, 0⟩).run waitingRun).dialog.handle 0
        (loadEvent s.token repeatingLoad)).dialog.phase = .closed ∧
      ∃ before calls, ClosesUnshown (.duplicateUrl "a") calls ∧ s.openingCalls <+: calls ∧
        ∀ later, ∃ after, BeginAnew after ∧
          hostCallsOf ((Dialog.create ⟨25, 300, 0⟩).run (waitingRun ++
            (0, .deliver (loadEvent s.token repeatingLoad)) :: later)).effects =
              before ++ calls ++ after := by
  have hrepeats : ¬ repeatingLoad.ListsDistinct := by
    rintro ⟨items, ⟨⟩, hnodup⟩
    exact absurd hnodup (by decide)
  refine ⟨_, rfl, rfl, hrepeats, ?_⟩
  obtain ⟨-, hclose⟩ :=
    distinct_items_decide_load.2 ⟨25, 300, 0⟩ waitingRun _ rfl rfl 0 repeatingLoad
  obtain ⟨hclosed, -, e, before, calls, he, hcalls, hprefix, -, hlater⟩ := hclose hrepeats
  obtain rfl : LoadError.duplicateUrl "a" = e := Option.some.inj he
  exact ⟨hclosed, before, calls, hcalls, hprefix, hlater⟩

end FeedDesk
