import FeedDesk.Proofs.Dialog.Tables
import FeedDesk.Proofs.Dispatch.Selection

/-!
# What is sent of a ready view

A ready view sends the checked items, in the order of the items. It sends them from the items that
were loaded and not from the table, so neither the filter nor the naming makes a difference. As no
two loaded items have one address, checking what the table shows sends just that: a job for each
row, in the order of the rows.
-/
namespace FeedDesk

def Effect.jobs : Effect → List Job
  | .start (.dispatch _ _ _ queue) => queue.toList
  | .start (.load ..) | .start (.timer ..) | .host _ | .abandonTasks => []

def jobsStarted (effects : List Effect) : List Job := effects.flatMap Effect.jobs

def Dialog.Offers (items : List Item) (d : Dialog) : Prop :=
  d.phase = .ready ∧ ∃ s, d.session = some s ∧ s.items = some items

/-- What a view sends of some items when they are checked: the jobs of those that are, in the order
of the items, whatever the filter and the naming were changed to before. -/
structure Dialog.SendsChecked (items : List Item) (d : Dialog) : Prop where
  jobs : ∀ checked, jobsStarted (d.fetch checked).turn.effects =
    (items.filter fun item => checked.contains item.url).map Job.ofItem
  sent_iff : ∀ checked,
    (d.fetch checked).outcome = .ok () ↔ ∃ item ∈ items, item.url ∈ checked
  empty_iff : ∀ checked,
    (d.fetch checked).outcome = .error .emptySelection ↔ ∀ item ∈ items, item.url ∉ checked
  congr : ∀ checked checked', (∀ item ∈ items, item.url ∈ checked ↔ item.url ∈ checked') →
    d.fetch checked = d.fetch checked'
  unfiltered : ∀ changes : List (Int64 × Operation), (∀ timed ∈ changes, timed.2.IsChange) →
    ∀ checked, jobsStarted ((d.run changes).dialog.fetch checked).turn.effects =
      jobsStarted (d.fetch checked).turn.effects

/-- What a view sends when the rows of a table are checked and nothing else is: a job for each row,
in the order of the rows. -/
structure Dialog.SendsShown (shown : Projection) (d : Dialog) : Prop where
  urls : ∀ checked, (∀ id, id ∈ checked ↔ id ∈ shown.ids) →
    (jobsStarted (d.fetch checked).turn.effects).map Job.url = shown.ids
  length : ∀ checked, (∀ id, id ∈ checked ↔ id ∈ shown.ids) →
    (jobsStarted (d.fetch checked).turn.effects).length = shown.rows.length
  empty_iff : ∀ checked, (∀ id, id ∈ checked ↔ id ∈ shown.ids) →
    ((d.fetch checked).outcome = .error .emptySelection ↔ shown.rows = [])

/-! ## Sending checked items -/

namespace Dialog.Offers

variable {d : Dialog} {items : List Item}

/-- A ready view sends what is checked, unless nothing is. -/
theorem fetch_cases (h : d.Offers items) (checked : List String) :
    (JobQueue.selected items checked = [] ∧
        d.fetch checked = ⟨.error .emptySelection, ⟨d, [.host (.notify .selectItems)]⟩⟩) ∨
      (JobQueue.selected items checked ≠ [] ∧ (d.fetch checked).outcome = .ok () ∧
        jobsStarted (d.fetch checked).turn.effects =
          (JobQueue.selected items checked).map Job.ofItem) := by
  obtain ⟨hp, s, hs, hi⟩ := h
  have hloaded : s.loadedItems = items := by rw [Session.loadedItems, hi, Option.getD_some]
  rw [fetch, whenReady_of_ready hp hs, hloaded]
  cases hq : JobQueue.ofSelection? items checked with
  | none =>
    exact .inl ⟨JobQueue.selected_eq_nil_iff.mpr (JobQueue.ofSelection_eq_none.mp hq), rfl⟩
  | some queue =>
    have hjobs := JobQueue.toList_of_ofSelection hq
    refine .inr ⟨fun hnil => ?_, rfl, ?_⟩
    · rw [hnil] at hjobs
      cases hjobs
    · rw [← hjobs]
      exact List.append_nil _

theorem jobs_fetch (h : d.Offers items) (checked : List String) :
    jobsStarted (d.fetch checked).turn.effects =
      (JobQueue.selected items checked).map Job.ofItem := by
  obtain ⟨hnil, hfetch⟩ | ⟨-, -, hjobs⟩ := h.fetch_cases checked
  · rw [hnil, hfetch]
    rfl
  · exact hjobs

theorem fetch_empty_iff (h : d.Offers items) (checked : List String) :
    (d.fetch checked).outcome = .error .emptySelection ↔ JobQueue.selected items checked = [] := by
  obtain ⟨hnil, hfetch⟩ | ⟨hne, hok, -⟩ := h.fetch_cases checked
  · simp [hfetch, hnil]
  · simp [hok, hne]

theorem fetch_ok_iff (h : d.Offers items) (checked : List String) :
    (d.fetch checked).outcome = .ok () ↔ JobQueue.selected items checked ≠ [] := by
  obtain ⟨hnil, hfetch⟩ | ⟨hne, hok, -⟩ := h.fetch_cases checked
  · simp [hfetch, hnil]
  · simp [hok, hne]

theorem change (h : d.Offers items) {op : Operation} (hop : op.IsChange) (now : Int64) :
    ((d.perform now op).turn.dialog).Offers items := by
  obtain ⟨hp, s, hs, hi⟩ := h
  have hready : d.ReadyWith items s.filter s.naming := ⟨hp, s, hs, hi, rfl, rfl⟩
  have hchanged : ((d.perform now op).turn.dialog).ReadyWith items (op.filterAfter s.filter)
      (op.namingAfter s.naming) := hready.change hop
  obtain ⟨hp', s', hs', hi', -, -⟩ := hchanged
  exact ⟨hp', s', hs', hi'⟩

theorem run (h : d.Offers items) {changes : List (Int64 × Operation)}
    (hchanges : ∀ timed ∈ changes, timed.2.IsChange) : (d.run changes).dialog.Offers items := by
  induction changes generalizing d with
  | nil => exact h
  | cons timed rest ih =>
    obtain ⟨hop, hrest⟩ := List.forall_mem_cons.mp hchanges
    exact ih (h.change hop timed.1) hrest

theorem sendsChecked (h : d.Offers items) : d.SendsChecked items where
  jobs := h.jobs_fetch
  sent_iff checked := by
    rw [h.fetch_ok_iff, ne_eq, JobQueue.selected_eq_nil_iff]
    push Not
    rfl
  empty_iff checked := by rw [h.fetch_empty_iff, JobQueue.selected_eq_nil_iff]
  congr checked checked' hsame := by
    obtain ⟨hp, s, hs, hi⟩ := h
    have hloaded : s.loadedItems = items := by rw [Session.loadedItems, hi, Option.getD_some]
    rw [fetch, fetch, whenReady_of_ready hp hs, whenReady_of_ready hp hs, hloaded,
      JobQueue.ofSelection?, JobQueue.selected_congr hsame, JobQueue.ofSelection?]
  unfiltered changes hchanges checked := by
    rw [(h.run hchanges).jobs_fetch, h.jobs_fetch]

/-! ## Sending what is shown -/

theorem sendsShown (h : d.Offers items) (hnodup : (items.map Item.url).Nodup)
    (filter : StatusFilter) (naming : Naming) (clock : Clock) :
    d.SendsShown (.ofItems items filter naming clock) := by
  let visible := items.filter fun item => filter.shows item.status
  have hids : (Projection.ofItems items filter naming clock).ids = visible.map Item.url :=
    List.map_map
  have hselected : ∀ checked : List String,
      (∀ id, id ∈ checked ↔ id ∈ (Projection.ofItems items filter naming clock).ids) →
        JobQueue.selected items checked = visible := by
    intro checked hchecked
    rw [hids] at hchecked
    exact JobQueue.selected_eq_filter hnodup hchecked
  constructor
  case urls =>
    intro checked hchecked
    rw [h.jobs_fetch, hselected checked hchecked, hids, List.map_map]
    rfl
  case length =>
    intro checked hchecked
    rw [h.jobs_fetch, hselected checked hchecked, List.length_map]
    exact (List.length_map ..).symm
  case empty_iff =>
    intro checked hchecked
    rw [h.fetch_empty_iff, hselected checked hchecked]
    exact List.map_eq_nil_iff.symm

end Dialog.Offers

/-- Take any run of a view, with events of any kind, that leaves it ready. The loaded items have
different addresses; the operator sees a table of them, under the filter and the naming of the
session; what is sent of them when some are checked does not depend on the filter or the naming;
and what is sent when the rows of the table are checked are these rows, in their order. -/
theorem Dialog.run_selection (settings : DialogSettings) (ops : List (Int64 × Operation))
    (hp : ((create settings).run ops).dialog.phase = .ready) :
    ∃ items s shown, ((create settings).run ops).dialog.session = some s ∧
      s.items = some items ∧ (items.map Item.url).Nodup ∧
      s.projection = some shown.projection ∧
      (({} : Screen).after ((create settings).run ops).effects).table = some shown ∧
      shown.projection.filter = s.filter ∧ shown.projection.naming = s.naming ∧
      ((create settings).run ops).dialog.SendsChecked items ∧
      ((create settings).run ops).dialog.SendsShown shown.projection := by
  have inv : ((create settings).run ops).dialog.Consistent ∧
      (({} : Screen).after ((create settings).run ops).effects).Mirrors
        ((create settings).run ops).dialog := by
    refine run_create_induction
      (P := fun past d => d.Consistent ∧ (({} : Screen).after past).Mirrors d) ?_ settings
      ⟨consistent_create settings, .create settings⟩ ops
    intro now past d op r ht _ h
    rw [Screen.after_append]
    exact ⟨ht.consistent h.1, ht.mirrors h.1 h.2⟩
  obtain ⟨hd, hm⟩ := inv
  obtain ⟨s, p, hs, hshown, htable⟩ := hm.table (.inl hp)
  obtain ⟨⟨items, hi, hnodup⟩, -⟩ := (hd.session_fits s hs).loaded (.inl hp)
  have htabled : ((create settings).run ops).dialog.Tabled ((create settings).tabledAt none ops) :=
    tabled_run (consistent_create settings) (.of_blank (by simp [create]) (by simp [create])) ops
  obtain ⟨items', now, -, hplain⟩ := htabled s hs (.inl hp)
  obtain rfl : items' = items := Option.some.inj (hplain.loaded.symm.trans hi)
  have hprojection := Option.some.inj (hshown.symm.trans hplain.shown)
  have hoffers : ((create settings).run ops).dialog.Offers items' := ⟨hp, s, hs, hi⟩
  refine ⟨items', s, _, hs, hi, hnodup, hshown, htable, ?_, ?_, hoffers.sendsChecked, ?_⟩
  · rw [hprojection]
    rfl
  · rw [hprojection]
    rfl
  · rw [hprojection]
    exact hoffers.sendsShown hnodup _ _ _

def filteredRun : List (Int64 × Operation) :=
  [(0, .openOn default),
    (0, .deliver ⟨⟨1⟩, .loaded (.ok [{ url := "a" }, { url := "b", status := .fetched },
      { url := "c", status := .fetched }])⟩),
    (0, .setFilter .fetched)]

/-- Two of three items are shown. -/
theorem Dialog.filtered_selection :
    ((create ⟨25, 300, 0⟩).run filteredRun).dialog.phase = .ready ∧
      ∃ items s shown, ((create ⟨25, 300, 0⟩).run filteredRun).dialog.session = some s ∧
        s.items = some items ∧ (items.map Item.url).Nodup ∧
        s.projection = some shown.projection ∧
        (({} : Screen).after ((create ⟨25, 300, 0⟩).run filteredRun).effects).table = some shown ∧
        shown.projection.filter = s.filter ∧ shown.projection.naming = s.naming ∧
        ((create ⟨25, 300, 0⟩).run filteredRun).dialog.SendsChecked items ∧
        ((create ⟨25, 300, 0⟩).run filteredRun).dialog.SendsShown shown.projection :=
  ⟨rfl, run_selection ⟨25, 300, 0⟩ filteredRun rfl⟩

end FeedDesk
