import FeedDesk.Proofs.Console.Showing
import FeedDesk.Proofs.Desk.Sending

/-!
# Views that send items

A view that is told to send items of a feed that loads begins one batch and at most as many more as
it has retries left. It ends without an error exactly if all of the items were acknowledged, each
once and in order; else those that were are not all of them and come before the others. The view is
closed in the end either way.
-/
namespace FeedDesk.Console

/-- The moves of a desk at which a batch is sent, and then retried a number of times. -/
def sendingMoves : Nat → List Move
  | 0 => [.settle]
  | tries + 1 => .settle :: .operate .retry :: sendingMoves tries

def viewMoves (source : FeedSource) (options : ViewOptions) (items : List Item) (tries : Nat) :
    List Move :=
  .operate (.openOn source) :: .settle :: (options.changes.map .operate ++
    .operate (.fetch (options.checks items)) :: (sendingMoves tries ++ [.operate .cancel]))

section
variable {σ : Type}

def ViewOptions.jobs (options : ViewOptions) (items : List Item) : List Job :=
  (JobQueue.selected items (options.checks items)).map Job.ofItem

/-- What a view comes to that was told to send some items. Its desk makes the moves of a fetch and
of some retries of it, and settles whenever it has to. -/
structure Sends (remote : Remote σ) (source : FeedSource) (options : ViewOptions)
    (items : List Item) (start : Desk (σ × List Attempt))
    (result : Run × Desk (σ × List Attempt)) : Prop where
  moves : ∃ tries ≤ options.retries,
    result.2 = start.moves remote.recording (viewMoves source options items tries) ∧
    ∀ before after, viewMoves source options items tries = before ++ .settle :: after →
      (start.moves remote.recording before).ComesToRest remote.recording
  batches : result.2.batchCount ≤ options.retries + 1
  success_iff : result.1.failure = none ↔
    acknowledged result.2.remote.2 = (options.jobs items).map (Job.request source.defaults)
  strict : result.1.failure ≠ none → ∃ rest, rest ≠ [] ∧
    (options.jobs items).map (Job.request source.defaults) = acknowledged result.2.remote.2 ++ rest
  once : ((acknowledged result.2.remote.2).map AppendRequest.url).Nodup
  closed : result.2.dialog.phase = .closed

variable {remote : Remote σ} {items : List Item}

/-- A client answers every call, if only with an error. -/
theorem answers_clientRemote (transport : Transport σ) (client : Client) :
    (clientRemote transport client).Answers := by
  rintro request link text ⟨⟩

/-! ## Sending the items -/

namespace Terminal

variable {defaults : DispatchDefaults} {jobs : List Job} {start : Desk (σ × List Attempt)}

/-- How sending ends: without an error and with no job left, or with an error and some. -/
inductive Ends (defaults : DispatchDefaults) (jobs : List Job) (start : Desk (σ × List Attempt))
    (result : Run × Desk (σ × List Attempt)) : Prop
  | succeeded (hf : result.1.failure = none) (h : result.2.Leaves defaults jobs [] start)
  | failed (failure : Failure) (hf : result.1.failure = some failure) (job : Job) (rest : List Job)
      (h : result.2.Leaves defaults jobs (job :: rest) start)

section
variable {t : Terminal σ} {retries : Nat}

theorem sendAll_of_closed (hp : (t.settle remote).desk.dialog.phase = .closed) :
    t.sendAll remote retries = (t.settle remote).finish none := by
  cases retries <;> rw [sendAll, if_pos hp]

theorem sendAll_of_retried (hp : (t.settle remote).desk.dialog.phase ≠ .closed)
    (hok : ((t.settle remote).desk.perform .retry).1 = .ok ()) :
    t.sendAll remote (retries + 1) = ((t.settle remote).after .retry).sendAll remote retries := by
  have hperform : (t.settle remote).perform .retry = (.ok (), (t.settle remote).after .retry) :=
    Prod.ext hok rfl
  rw [sendAll, if_neg hp, hperform]

end

theorem leaves_cancelled {desk : Desk (σ × List Attempt)} {left : List Job}
    (h : desk.Leaves defaults jobs left start) :
    (desk.after .cancel).Leaves defaults jobs left start := by
  rwa [Desk.Leaves, Desk.after_remote]

theorem sendAll_ends (hr : remote.Answers) (retries : Nat) {t : Terminal (σ × List Attempt)}
    (h : t.desk.Begun defaults jobs start) : ∃ tries ≤ retries,
      (t.sendAll remote.recording retries).2 =
        t.desk.moves remote.recording (sendingMoves tries ++ [.operate .cancel]) ∧
      Ends defaults jobs start (t.sendAll remote.recording retries) := by
  induction retries generalizing t with
  | zero =>
    obtain ⟨-, -, hsettled⟩ := h.settle hr
    refine ⟨0, Nat.le_refl 0, ?_⟩
    cases hsettled with
    | completed hp hleaves =>
      rw [sendAll_of_closed hp]
      exact ⟨rfl, .succeeded rfl (leaves_cancelled hleaves)⟩
    | halted s failure hp hs hf hleaves =>
      have hopen : (t.settle remote.recording).desk.dialog.phase ≠ .closed := by
        simp [settle, moveTo, hp]
      rw [sendAll, if_neg hopen]
      exact ⟨rfl, .failed _ rfl failure.failed failure.remaining (leaves_cancelled hleaves)⟩
  | succ retries ih =>
    obtain ⟨hsteady, hconserving, hsettled⟩ := h.settle hr
    cases hsettled with
    | completed hp hleaves =>
      rw [sendAll_of_closed hp]
      exact ⟨0, Nat.zero_le _, rfl, .succeeded rfl (leaves_cancelled hleaves)⟩
    | halted s failure hp hs hf hleaves =>
      obtain ⟨hok, hbegun⟩ := hsteady.retry hr hconserving hp hs hf
      have hopen : (t.settle remote.recording).desk.dialog.phase ≠ .closed := by
        simp [settle, moveTo, hp]
      obtain ⟨tries, htries, hmoves, hends⟩ :=
        ih (t := (t.settle remote.recording).after .retry) hbegun
      rw [sendAll_of_retried hopen hok]
      exact ⟨tries + 1, Nat.succ_le_succ htries, hmoves, hends⟩

/-- What a view that was told to send some jobs leaves, if nothing was attempted before. -/
theorem Ends.acknowledged {result : Run × Desk (σ × List Attempt)}
    (h : Ends defaults jobs start result) (hstart : start.remote.2 = []) :
    ∃ sent left, jobs = sent ++ left ∧ (result.1.failure = none ↔ left = []) ∧
      acknowledged result.2.remote.2 = sent.map (Job.request defaults) := by
  have count {left : List Job} (hleaves : result.2.Leaves defaults jobs left start) :
      ∃ sent, jobs = sent ++ left ∧
        FeedDesk.acknowledged result.2.remote.2 = sent.map (Job.request defaults) := by
    obtain ⟨record, hrecord, hleft⟩ := hleaves
    rw [hrecord, hstart, List.nil_append]
    exact acknowledged_of_leftOver hleft
  cases h with
  | succeeded hf hleaves =>
    obtain ⟨sent, hjobs, hack⟩ := count hleaves
    exact ⟨sent, [], hjobs, by simp [hf], hack⟩
  | failed failure hf job rest hleaves =>
    obtain ⟨sent, hjobs, hack⟩ := count hleaves
    exact ⟨sent, job :: rest, hjobs, by simp [hf], hack⟩

end Terminal

/-- A view of a feed that loads, if it is told to send items, sends what is checked among them. -/
theorem exists_send {s : σ} {source : FeedSource} {options : ViewOptions}
    (hload : (remote.load source.call s).1.outcome = .answers (.ok items))
    (hnodup : (items.map Item.url).Nodup) (settings : DialogSettings) (wallClock : Int64)
    (hw : options.wantsFetch = true) :
    ∃ v : Terminal σ, runView remote source options (Desk.create settings wallClock s) =
        v.send remote options.retries ∧
      v.checked = options.checks items ∧
      v.desk = ((Desk.create settings wallClock s).after (.openOn source)).moves remote
        (.settle :: options.changes.map .operate) ∧
      v.desk.dialog.Offers items := by
  obtain ⟨t, ht, hselect, -, hdesk, hdisplays⟩ :=
    showView_loaded hload hnodup options settings wallClock
  obtain ⟨hkept, hchecked⟩ := Terminal.check_displays hdisplays hselect
  refine ⟨t.check options, ?_, hchecked, hkept.trans hdesk, ?_⟩
  · rw [runView_eq, ht]
    exact if_pos hw
  · rw [hkept]
    exact hdisplays.offers

/-! ## The whole view -/

theorem batchesOf_sendingMoves (tries : Nat) : batchesOf (sendingMoves tries) = tries := by
  induction tries with
  | zero => rfl
  | succ tries ih =>
    simp only [sendingMoves, batchesOf_cons, ih, Move.batches, Operation.batches]
    omega

theorem routine_sendingMoves (tries : Nat) : ∀ m ∈ sendingMoves tries, m.Routine := by
  induction tries with
  | zero => exact List.forall_mem_singleton.mpr Move.routine_settle
  | succ tries ih =>
    exact List.forall_mem_cons.mpr ⟨Move.routine_settle,
      List.forall_mem_cons.mpr ⟨Move.routine_operate trivial rfl, ih⟩⟩

theorem ViewOptions.mem_changes {options : ViewOptions} {op : Operation}
    (h : op ∈ options.changes) : op.IsChange := by
  rw [changes, List.mem_append] at h
  rcases h with h | h <;> split at h
  · rw [List.mem_singleton.mp h]
    trivial
  · cases h
  · cases h
  · rw [List.mem_singleton.mp h]
    trivial

theorem routine_changes (options : ViewOptions) :
    ∀ m ∈ options.changes.map Move.operate, m.Routine := by
  intro m hm
  obtain ⟨op, hop, rfl⟩ := List.mem_map.mp hm
  have hchange := ViewOptions.mem_changes hop
  cases op with
  | setFilter | setNaming => exact Move.routine_operate trivial rfl
  | openOn | fetch | retry | cancel | deliver => exact hchange.elim

theorem batchesOf_changes (options : ViewOptions) :
    batchesOf (options.changes.map Move.operate) = 0 := by
  unfold ViewOptions.changes
  split <;> split <;> rfl

theorem shows_changes (options : ViewOptions) (source : FeedSource) :
    (.settle :: options.changes.map Move.operate).foldl Move.shows (some source) =
      some source := by
  unfold ViewOptions.changes
  split <;> split <;> rfl

theorem ViewOptions.wantsFetch_eq_false_iff {options : ViewOptions} :
    options.wantsFetch = false ↔ options.selectVisible = false ∧ options.select = [] := by
  simp [wantsFetch]

/-- A view with something to check among the items was told to send. -/
theorem ViewOptions.wantsFetch_of_selected {options : ViewOptions}
    (h : JobQueue.selected items (options.checks items) ≠ []) : options.wantsFetch = true := by
  rw [← Bool.not_eq_false]
  intro hw
  obtain ⟨hvisible, hselect⟩ := wantsFetch_eq_false_iff.mp hw
  refine h (JobQueue.selected_eq_nil_iff.mpr fun item _ => ?_)
  simp [checks, hvisible, hselect]

theorem routine_viewMoves (source : FeedSource) (options : ViewOptions) (items : List Item)
    (tries : Nat) : ∃ later,
      viewMoves source options items tries = .operate (.openOn source) :: later ∧
      (∀ m ∈ later, m.Routine) ∧ batchesOf later = tries + 1 := by
  refine ⟨_, rfl, ?_, ?_⟩
  · refine List.forall_mem_cons.mpr ⟨Move.routine_settle, ?_⟩
    refine List.forall_mem_append.mpr ⟨routine_changes options, ?_⟩
    refine List.forall_mem_cons.mpr ⟨Move.routine_operate trivial rfl, ?_⟩
    refine List.forall_mem_append.mpr ⟨routine_sendingMoves tries, ?_⟩
    exact List.forall_mem_singleton.mpr (Move.routine_operate trivial rfl)
  · have hcancel : batchesOf [.operate .cancel] = 0 := rfl
    simp only [batchesOf_cons, batchesOf_append, batchesOf_changes, batchesOf_sendingMoves, hcancel,
      Move.batches, Operation.batches]
    omega

theorem remote_changes (desk : Desk (σ × List Attempt)) (ops : List Operation) :
    (desk.moves remote.recording (ops.map .operate)).remote = desk.remote := by
  induction ops generalizing desk with
  | nil => rfl
  | cons op ops ih => exact (ih (desk.after op)).trans (desk.after_remote op)

/-- A view that is told to send items of a feed that loads begins a batch of them, before which
nothing was attempted. -/
theorem exists_begun (source : FeedSource) (options : ViewOptions) (settings : DialogSettings)
    (wallClock : Int64) {s : σ}
    (hload : (remote.load source.call s).1.outcome = .answers (.ok items))
    (hnodup : (items.map Item.url).Nodup) (hr : remote.Answers)
    (hchecked : JobQueue.selected items (options.checks items) ≠ []) :
    ∃ (t : Terminal (σ × List Attempt)) (start : Desk (σ × List Attempt)),
      runView remote.recording source options (Desk.create settings wallClock (s, [])) =
        t.sendAll remote.recording options.retries ∧
      t.desk = (Desk.create settings wallClock (s, [])).moves remote.recording
        (.operate (.openOn source) :: .settle :: (options.changes.map .operate ++
          [.operate (.fetch (options.checks items))])) ∧
      t.desk.Begun source.defaults (options.jobs items) start ∧ start.remote.2 = [] := by
  let opened : Desk (σ × List Attempt) :=
    (Desk.create settings wallClock (s, [])).after (.openOn source)
  have hopened : opened.Steady := Desk.steady_opened settings wallClock s source
  have hrecording : (remote.recording.load source.call (s, [])).1.outcome =
      .answers (.ok items) := hload
  obtain ⟨v, hview, hvchecked, hvdesk, hvoffers⟩ :=
    exists_send hrecording hnodup settings wallClock
      (ViewOptions.wantsFetch_of_selected hchecked)
  have hvsteady : v.desk.Steady := by
    rw [hvdesk]
    refine hopened.moves hr (List.forall_mem_cons.mpr ⟨Move.routine_settle, ?_⟩)
    exact routine_changes options
  have hvserves : v.desk.dialog.Serves (some source) := by
    have hserves : opened.dialog.Serves (some source) := by
      rw [Desk.after_dialog]
      exact Dialog.serves_entered _ source
    rw [hvdesk, ← shows_changes options source]
    exact Desk.serves_moves remote.recording hopened.unstuck.coherent hserves _
  have hvremote : v.desk.remote.2 = [] := by
    obtain ⟨time, hsettle⟩ := Desk.settle_opened remote.recording settings wallClock (s, []) source
    rw [hvdesk]
    change ((opened.settle remote.recording).moves remote.recording
      (options.changes.map .operate)).remote.2 = []
    rw [remote_changes, hsettle, Desk.after_remote]
    rfl
  obtain ⟨hok, session, hs, hbegun⟩ := hvsteady.fetch hr hvoffers hchecked
  obtain ⟨served, hserved, hdefaults⟩ := hvserves session hs
  obtain rfl := Option.some.inj hserved
  rw [hdefaults] at hbegun
  refine ⟨v.after (.fetch (options.checks items)), v.desk, ?_, ?_, hbegun, hvremote⟩
  · have hperform : v.perform (.fetch (options.checks items)) =
        (.ok (), v.after (.fetch (options.checks items))) := Prod.ext hok rfl
    rw [hview, Terminal.send, hvchecked, hperform]
  · change v.desk.after _ = _
    rw [hvdesk]
    exact (Desk.moves_append remote.recording opened (.settle :: options.changes.map .operate)
      [.operate (.fetch (options.checks items))]).symm

/-- Whenever a view that sends items and retries settles, it comes to rest. -/
theorem comesToRest_viewMoves (remote : Remote σ) (source : FeedSource) (options : ViewOptions)
    (items : List Item) (tries : Nat) (settings : DialogSettings) (wallClock : Int64) (s : σ)
    {before after : List Move}
    (h : viewMoves source options items tries = before ++ .settle :: after) :
    ((Desk.create settings wallClock s).moves remote before).ComesToRest remote := by
  obtain ⟨later, hmoves, hroutine, -⟩ := routine_viewMoves source options items tries
  have hbefore : ∀ m ∈ before, m = .operate (.openOn source) ∨ m.Routine := by
    intro m hm
    have hmem : m ∈ viewMoves source options items tries := by
      rw [h]
      exact List.mem_append_left _ hm
    rw [hmoves] at hmem
    exact (List.mem_cons.mp hmem).imp_right (hroutine m)
  have hkept : ∀ m ∈ before, m ≠ .dismissNext := by
    intro m hm
    obtain rfl | hroutine := hbefore m hm
    · simp
    · exact hroutine.ne_dismissNext
  have hlistens : ∀ m ∈ before, m ≠ .stopListening := by
    intro m hm
    obtain rfl | hroutine := hbefore m hm
    · simp
    · exact hroutine.listens
  exact Desk.Unstuck.comesToRest ((Desk.unstuck_create settings wallClock s).moves hkept)
    (Desk.listening_moves rfl hlistens)

/-- A view begins no more batches, once it is opened, than the moves that follow can begin. -/
theorem batchCount_opened (remote : Remote σ) (source : FeedSource) (settings : DialogSettings)
    (wallClock : Int64) (s : σ) {later : List Move} (hroutine : ∀ m ∈ later, m.Routine) :
    (((Desk.create settings wallClock s).after (.openOn source)).moves remote later).batchCount ≤
      batchesOf later := by
  let opened : Desk σ := (Desk.create settings wallClock s).after (.openOn source)
  have hopened : opened.Unstuck := (Desk.unstuck_create settings wallClock s).after _
  have hnew : opened.batchCount ≤ 0 :=
    Desk.batchCount_after (Dialog.coherent_create settings) (.openOn source)
  have hcount : (opened.moves remote later).batchCount ≤ opened.batchCount + batchesOf later :=
    hopened.batchCount_moves hroutine
  change (opened.moves remote later).batchCount ≤ batchesOf later
  omega

theorem batchCount_viewMoves (remote : Remote σ) (source : FeedSource) (options : ViewOptions)
    (items : List Item) (tries : Nat) (settings : DialogSettings) (wallClock : Int64) (s : σ) :
    ((Desk.create settings wallClock s).moves remote
      (viewMoves source options items tries)).batchCount ≤ tries + 1 := by
  obtain ⟨later, hlater, hroutine, hsum⟩ := routine_viewMoves source options items tries
  rw [hlater, ← hsum]
  exact batchCount_opened remote source settings wallClock s hroutine

/-- A view that is told to send items of a feed that loads, at a server whose calls are answered,
settles every time; it begins one batch and no more others than it has retries; and it ends without
an error exactly if all of the items were acknowledged. Then each of them was acknowledged once, in
order; else those that were are strictly fewer and the first of them. In the end the view is closed.
The record by which this is told makes no difference to the view. -/
theorem runView_sends (remote : Remote σ) (source : FeedSource) (options : ViewOptions)
    (settings : DialogSettings) (wallClock : Int64) (s : σ) (items : List Item)
    (hload : (remote.load source.call s).1.outcome = .answers (.ok items))
    (hnodup : (items.map Item.url).Nodup) (hr : remote.Answers)
    (hchecked : JobQueue.selected items (options.checks items) ≠ []) :
    runView remote source options (Desk.create settings wallClock s) =
        forgetEnd (runView remote.recording source options
          (Desk.create settings wallClock (s, []))) ∧
      Sends remote source options items (Desk.create settings wallClock (s, []))
        (runView remote.recording source options (Desk.create settings wallClock (s, []))) := by
  refine ⟨forget_runView source options (Desk.create settings wallClock (s, [])), ?_⟩
  obtain ⟨t, start, hview, htdesk, hbegun, hstart⟩ :=
    exists_begun source options settings wallClock hload hnodup hr hchecked
  obtain ⟨tries, htries, hmoves, hends⟩ := Terminal.sendAll_ends hr options.retries hbegun
  obtain ⟨sent, left, hjobs, hnone, hack⟩ := hends.acknowledged hstart
  have hdesk : (t.sendAll remote.recording options.retries).2 =
      (Desk.create settings wallClock (s, [])).moves remote.recording
        (viewMoves source options items tries) := by
    rw [hmoves, htdesk, ← Desk.moves_append, viewMoves, List.cons_append, List.cons_append,
      List.append_assoc]
    rfl
  rw [hview]
  refine ⟨⟨tries, htries, hdesk, fun before after h => comesToRest_viewMoves _ _ _ _ _ _ _ _ h⟩,
    ?batches, ?success, ?strict, ?once, ?closed⟩
  case batches =>
    rw [hdesk]
    exact Nat.le_trans (batchCount_viewMoves ..) (Nat.succ_le_succ htries)
  case success =>
    rw [hnone, hack, hjobs, List.map_append, List.self_eq_append_right, List.map_eq_nil_iff]
  case strict =>
    intro hfailed
    refine ⟨left.map (Job.request source.defaults), fun hnil => ?_, ?_⟩
    · exact hfailed (hnone.mpr (List.map_eq_nil_iff.mp hnil))
    · rw [hjobs, List.map_append, hack]
  case once =>
    have hurls : ((options.jobs items).map Job.url).Nodup := JobQueue.nodup_selected hnodup _
    rw [hjobs, List.map_append, List.nodup_append] at hurls
    rw [hack, List.map_map]
    exact hurls.1
  case closed =>
    have hsent : (t.desk.moves remote.recording (sendingMoves tries)).Steady :=
      hbegun.steady.moves hr (routine_sendingMoves tries)
    rw [hmoves, Desk.moves_append]
    exact congrArg Dialog.phase (Desk.after_cancel_dialog hsent.unstuck.coherent)

def sendingOptions : ViewOptions := { status := .new, selectVisible := true, retries := 1 }

/-- Two of three items are new. The second of them is refused, retried and acknowledged. -/
def sentItems : List Item :=
  [{ url := "a", status := .new }, { url := "b" }, { url := "c", status := .new }]

theorem wavering_view_sends :
    runView (.wavering sentItems) default sendingOptions (Desk.create ⟨25, 300, 0⟩ 0 true) =
        forgetEnd (runView (Remote.wavering sentItems).recording default sendingOptions
          (Desk.create ⟨25, 300, 0⟩ 0 (true, []))) ∧
      Sends (.wavering sentItems) default sendingOptions sentItems
        (Desk.create ⟨25, 300, 0⟩ 0 (true, []))
        (runView (Remote.wavering sentItems).recording default sendingOptions
          (Desk.create ⟨25, 300, 0⟩ 0 (true, []))) := by
  refine runView_sends _ _ _ _ _ true sentItems rfl (by decide) ?_ (by decide)
  rintro request s text ⟨⟩

end

end FeedDesk.Console
