import FeedDesk.Proofs.Console.Sending

/-!
# The items that a view sends first

The options of a view ask for items in two ways: by their addresses, and by telling the view to send
all that it shows. A view of a feed that loads begins no batch before its table is printed, and then
sends the items that its options pick, in the order of the items. If all that is shown is to be sent,
the addresses count for nothing: an item that was asked for by its address is left out unless it is
shown as well.
-/
namespace FeedDesk.Console

/-- Whether an item is picked: it is shown, if all that is shown is to be sent, and else its address
is given. -/
def ViewOptions.picks (options : ViewOptions) (item : Item) : Bool :=
  if options.selectVisible then options.status.shows item.status
  else options.select.contains item.url

/-- Whether an item is asked for: its address is given, or it is shown and all that is shown is to be
sent. -/
def ViewOptions.asks (options : ViewOptions) (item : Item) : Bool :=
  options.select.contains item.url || (options.selectVisible && options.status.shows item.status)

section
variable {σ : Type} {items : List Item} {options : ViewOptions}

/-- The jobs of the batch that a terminal begins when its view goes on, none if it begins none. -/
def Terminal.nextJobs (options : ViewOptions) (t : Terminal σ) : List Job :=
  if options.wantsFetch then
    let t := t.check options
    jobsStarted (t.desk.dialog.fetch t.checked).turn.effects
  else []

def firstJobs (remote : Remote σ) (source : FeedSource) (options : ViewOptions) (desk : Desk σ) :
    List Job :=
  match showView remote source options desk with
  | .error _ => []
  | .ok t => t.nextJobs options

/-! ## Picked items -/

/-- Items with different addresses are told apart by their jobs. -/
theorem map_ofItem_filter_eq_iff (hnodup : (items.map Item.url).Nodup) {p q : Item → Bool} :
    (items.filter p).map Job.ofItem = (items.filter q).map Job.ofItem ↔
      ∀ item ∈ items, p item = q item := by
  constructor
  · intro h
    have hurls : (items.filter p).map Item.url = (items.filter q).map Item.url := by
      simpa [Function.comp_def, Job.ofItem] using congrArg (List.map Job.url) h
    have sent_of {p q : Item → Bool}
        (h : (items.filter p).map Item.url = (items.filter q).map Item.url) {item : Item}
        (hitem : item ∈ items) (hp : p item = true) : q item = true := by
      have hmem : item.url ∈ (items.filter q).map Item.url := by
        rw [← h]
        exact List.mem_map_of_mem (List.mem_filter.mpr ⟨hitem, hp⟩)
      obtain ⟨other, hother, hurl⟩ := List.mem_map.mp hmem
      obtain ⟨hmem, hq⟩ := List.mem_filter.mp hother
      exact List.inj_on_of_nodup_map hnodup hmem hitem hurl ▸ hq
    intro item hitem
    rw [Bool.eq_iff_iff]
    exact ⟨sent_of hurls hitem, sent_of hurls.symm hitem⟩
  · intro h
    rw [List.filter_congr h]

theorem selected_checks (hnodup : (items.map Item.url).Nodup) (options : ViewOptions) :
    JobQueue.selected items (options.checks items) = items.filter options.picks := by
  unfold ViewOptions.checks ViewOptions.picks
  split
  · exact JobQueue.selected_eq_filter hnodup fun url => Iff.rfl
  · rfl

/-- What is picked is what is asked for, unless an item is asked for by its address that is not
shown, and all that is shown is to be sent. -/
theorem picks_eq_asks_iff :
    (∀ item ∈ items, options.picks item = options.asks item) ↔
      (options.selectVisible = true → ∀ item ∈ items, item.url ∈ options.select →
        options.status.shows item.status = true) := by
  cases hvisible : options.selectVisible with
  | false => simp [ViewOptions.picks, ViewOptions.asks, hvisible]
  | true => simp [ViewOptions.picks, ViewOptions.asks, hvisible]

theorem filter_picks_of_not_wanted (hw : options.wantsFetch = false) :
    items.filter options.picks = [] := by
  obtain ⟨hvisible, hselect⟩ := ViewOptions.wantsFetch_eq_false_iff.mp hw
  simp [ViewOptions.picks, hvisible, hselect]

theorem Terminal.nextJobs_eq {t : Terminal σ} {settings : DialogSettings} {now : Int64}
    {title : String} {naming : Naming} (hnodup : (items.map Item.url).Nodup)
    (h : t.desk.Displays settings now title items options.status naming)
    (hselect : t.checked = options.select) :
    t.nextJobs options = (items.filter options.picks).map Job.ofItem := by
  unfold nextJobs
  cases hw : options.wantsFetch with
  | false =>
    rw [filter_picks_of_not_wanted hw]
    rfl
  | true =>
    obtain ⟨hdesk, hchecked⟩ := check_displays h hselect
    have hoffers : (t.check options).desk.dialog.Offers items := by
      rw [hdesk]
      exact h.offers
    rw [if_pos rfl, hoffers.jobs_fetch, hchecked, selected_checks hnodup]

/-! ## The first batch -/

/-- A view of a feed that loads begins its first batch behind its table, and sends in it the items
that its options pick. These are the items that the options ask for exactly if each that is asked for
by its address is shown, or not all that is shown is to be sent. -/
theorem firstJobs_eq (remote : Remote σ) (source : FeedSource) (options : ViewOptions)
    (settings : DialogSettings) (wallClock : Int64) (s : σ) (items : List Item)
    (hload : (remote.load source.call s).1.outcome = .answers (.ok items))
    (hnodup : (items.map Item.url).Nodup) :
    (∃ t, showView remote source options (.create settings wallClock s) = .ok t ∧
        t.desk.batchCount = 0 ∧
        runView remote source options (.create settings wallClock s) = t.proceed remote options) ∧
      firstJobs remote source options (.create settings wallClock s) =
        (items.filter options.picks).map Job.ofItem ∧
      (firstJobs remote source options (.create settings wallClock s) =
          (items.filter options.asks).map Job.ofItem ↔
        (options.selectVisible = true → ∀ item ∈ items, item.url ∈ options.select →
          options.status.shows item.status = true)) := by
  obtain ⟨t, ht, hselect, -, hdesk, hdisplays⟩ :=
    showView_loaded hload hnodup options settings wallClock
  have hjobs : firstJobs remote source options (.create settings wallClock s) =
      (items.filter options.picks).map Job.ofItem := by
    rw [firstJobs, ht]
    exact Terminal.nextJobs_eq hnodup hdisplays hselect
  refine ⟨⟨t, ht, ?_, ?_⟩, hjobs, ?_⟩
  · have hroutine : ∀ m ∈ .settle :: options.changes.map Move.operate, m.Routine :=
      List.forall_mem_cons.mpr ⟨Move.routine_settle, routine_changes options⟩
    have hcount := batchCount_opened remote source settings wallClock s hroutine
    rw [batchesOf_cons, batchesOf_changes] at hcount
    rw [hdesk]
    exact Nat.le_zero.mp hcount
  · rw [runView_eq, ht]
  · rw [hjobs, map_ofItem_filter_eq_iff hnodup, picks_eq_asks_iff]

def mixedOptions : ViewOptions := { status := .new, select := ["b"], selectVisible := true }

def mixedItems : List Item := [{ url := "a", status := .new }, { url := "b", status := .fetched }]

theorem mixed_firstJobs :
    (∃ t, showView (.wavering mixedItems) default mixedOptions (.create ⟨25, 300, 0⟩ 0 true) =
          .ok t ∧ t.desk.batchCount = 0 ∧
        runView (.wavering mixedItems) default mixedOptions (.create ⟨25, 300, 0⟩ 0 true) =
          t.proceed (.wavering mixedItems) mixedOptions) ∧
      firstJobs (.wavering mixedItems) default mixedOptions (.create ⟨25, 300, 0⟩ 0 true) =
        (mixedItems.filter mixedOptions.picks).map Job.ofItem ∧
      (firstJobs (.wavering mixedItems) default mixedOptions (.create ⟨25, 300, 0⟩ 0 true) =
          (mixedItems.filter mixedOptions.asks).map Job.ofItem ↔
        (mixedOptions.selectVisible = true → ∀ item ∈ mixedItems, item.url ∈ mixedOptions.select →
          mixedOptions.status.shows item.status = true)) :=
  firstJobs_eq _ _ _ _ _ true mixedItems rfl (by decide)

/-- The second item is asked for by its address, and left out of the batch. -/
theorem address_passed_over :
    (mixedItems.filter mixedOptions.asks).map Item.url = ["a", "b"] ∧
      (firstJobs (.wavering mixedItems) default mixedOptions
        (.create ⟨25, 300, 0⟩ 0 true)).map Job.url = ["a"] := by
  decide

end

end FeedDesk.Console
