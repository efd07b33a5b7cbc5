import FeedDesk.Proofs.Console.Recording
import FeedDesk.Proofs.Desk.Loading

/-!
# Views that show a feed

A view is run up to its table first, and then it goes on to send items if it is told to. For a feed
that loads, the table is that of the items under the options of the view, nothing is printed before
it, and no batch is begun.
-/
namespace FeedDesk.Console

def ViewOptions.naming (options : ViewOptions) : Naming :=
  if options.filenames then .filename else .title

def ViewOptions.changes (options : ViewOptions) : List Operation :=
  (if options.filenames then [.setNaming .filename] else []) ++
    if options.status = .all then [] else [.setFilter options.status]

/-- The addresses that are checked among some items: all that are shown, or those that are given. -/
def ViewOptions.checks (options : ViewOptions) (items : List Item) : List String :=
  if options.selectVisible then
    (items.filter fun item => options.status.shows item.status).map Item.url
  else options.select

section
variable {σ : Type}

/-- A view up to its table, or the end that it comes to without one. -/
def showView (remote : Remote σ) (source : FeedSource) (options : ViewOptions) (desk : Desk σ) :
    Except (Run × Desk σ) (Terminal σ) :=
  let t : Terminal σ := { desk, checked := options.select }
  let t := (t.after (.openOn source)).settle remote
  if t.desk.dialog.phase ≠ .ready then .error (t.finish (some ⟨"Feed could not be loaded", []⟩))
  else
    match t.present options with
    | .error e => .error (t.finish (some ⟨e.message, []⟩))
    | .ok t => .ok t.printTable

namespace Terminal

def check (options : ViewOptions) (t : Terminal σ) : Terminal σ :=
  if options.selectVisible then t.checkVisible else t

def proceed (remote : Remote σ) (options : ViewOptions) (t : Terminal σ) : Run × Desk σ :=
  if options.wantsFetch then (t.check options).send remote options.retries else t.finish none

end Terminal

/-- A view goes on behind its table unless it has come to its end before. -/
theorem runView_eq (remote : Remote σ) (source : FeedSource) (options : ViewOptions)
    (desk : Desk σ) :
    runView remote source options desk =
      match showView remote source options desk with
      | .error ended => ended
      | .ok t => t.proceed remote options := by
  unfold runView showView
  dsimp only
  generalize (Terminal.after _ (.openOn source)).settle remote = t
  split
  · rfl
  · cases t.present options with
    | error e => rfl
    | ok u =>
      unfold Terminal.proceed
      cases options.wantsFetch <;> rfl

/-! ## Changes of what is shown -/

variable {settings : DialogSettings} {now : Int64} {title : String} {items : List Item}
  {filter : StatusFilter} {naming : Naming}

namespace Terminal

/-- What is printed on an operation are the messages among the calls that it makes. -/
theorem lines_after (t : Terminal σ) (op : Operation) :
    (t.after op).lines = t.lines ++
      (hostCallsOf (t.desk.dialog.perform t.desk.wallClock op).turn.effects).flatMap hostLines := by
  simp [after, moveTo, Desk.after, Desk.perform, Desk.follow_eq]

theorem not_printed_refresh (d : Dialog) (now : Int64) :
    (hostCallsOf (d.refresh now).effects).flatMap hostLines = [] := by
  unfold Dialog.refresh
  split
  · rfl
  · dsimp only
    split <;> rfl

theorem lines_change (t : Terminal σ) {op : Operation} (hop : op.IsChange) :
    (t.after op).lines = t.lines := by
  have quiet (d : Dialog) {step : Session → Reply}
      (h : ∀ s, (hostCallsOf (step s).turn.effects).flatMap hostLines = []) :
      (hostCallsOf (d.whenReady step).turn.effects).flatMap hostLines = [] := by
    unfold Dialog.whenReady
    split
    · exact h _
    · rfl
  rw [lines_after, List.append_right_eq_self]
  cases op with
  | setFilter | setNaming => exact quiet _ fun s => not_printed_refresh _ _
  | openOn | fetch | retry | cancel | deliver => exact hop.elim

theorem demand_change {t : Terminal σ}
    (h : t.desk.Displays settings now title items filter naming) {op : Operation}
    (hop : op.IsChange) : t.demand op = .ok (t.after op) ∧
      (t.after op).desk.Displays settings now title items (op.filterAfter filter)
        (op.namingAfter naming) := by
  obtain ⟨hok, hdisplays⟩ := h.change hop
  have hperform : t.perform op = (.ok (), t.after op) := Prod.ext hok rfl
  refine ⟨?_, hdisplays⟩
  rw [demand, hperform]

/-- A terminal that displays items comes to show them as its options say, and prints nothing
meanwhile. -/
theorem present_displays (remote : Remote σ) {t : Terminal σ}
    (h : t.desk.Displays settings now title items .all .title) (options : ViewOptions) :
    ∃ u, t.present options = .ok u ∧ u.checked = t.checked ∧ u.lines = t.lines ∧
      u.desk = t.desk.moves remote (options.changes.map .operate) ∧
      u.desk.Displays settings now title items options.status options.naming := by
  -- The naming is changed before the filter.
  obtain ⟨u, hu, huchecked, hulines, hudesk, hudisplays⟩ : ∃ u,
      (if options.filenames then t.demand (.setNaming .filename) else .ok t) = .ok u ∧
      u.checked = t.checked ∧ u.lines = t.lines ∧ u.desk = t.desk.moves remote
        ((if options.filenames then [.setNaming .filename] else []).map .operate) ∧
      u.desk.Displays settings now title items .all options.naming := by
    unfold ViewOptions.naming
    cases options.filenames with
    | false => exact ⟨t, rfl, rfl, rfl, rfl, h⟩
    | true =>
      have hchange : (Operation.setNaming .filename).IsChange := trivial
      obtain ⟨hdemand, hdisplays⟩ := demand_change h hchange
      exact ⟨_, hdemand, rfl, t.lines_change hchange, rfl, hdisplays⟩
  rw [present_eq, hu]
  by_cases hstatus : options.status = .all
  · refine ⟨u, by simp [Except.bind, hstatus], huchecked, hulines, ?_, hstatus ▸ hudisplays⟩
    rw [hudesk, ViewOptions.changes, if_pos hstatus, List.append_nil]
  · have hchange : (Operation.setFilter options.status).IsChange := trivial
    obtain ⟨hdemand, hdisplays⟩ := demand_change hudisplays hchange
    refine ⟨u.after (.setFilter options.status), by simp [Except.bind, hstatus, hdemand],
      huchecked, (u.lines_change hchange).trans hulines, ?_, hdisplays⟩
    change u.desk.after _ = _
    rw [hudesk, ViewOptions.changes, if_neg hstatus, List.map_append, Desk.moves_append]
    rfl

/-! ## Feeds that load -/

theorem printTable_displays {t : Terminal σ}
    (h : t.desk.Displays settings now title items filter naming) :
    t.printTable.desk = t.desk ∧ t.printTable.checked = t.checked ∧
      t.printTable.lines = t.lines ++
        (tableLines settings.pageSize title (.ofItems settings now items filter naming)).map
          .out := by
  unfold printTable
  rw [h.table, h.settings_eq, h.title_eq]
  exact ⟨rfl, rfl, rfl⟩

theorem check_displays {t : Terminal σ} {options : ViewOptions}
    (h : t.desk.Displays settings now title items options.status naming)
    (hselect : t.checked = options.select) :
    (t.check options).desk = t.desk ∧ (t.check options).checked = options.checks items := by
  unfold check ViewOptions.checks
  split
  · unfold checkVisible
    rw [h.table]
    exact ⟨rfl, ShownTable.ids_ofItems ..⟩
  · exact ⟨rfl, hselect⟩

theorem lines_loaded {remote : Remote σ} {s : σ} {source : FeedSource}
    (hload : (remote.load source.call s).1.outcome = .answers (.ok items))
    (hnodup : (items.map Item.url).Nodup) (settings : DialogSettings) (now : Int64)
    (checked : List String) :
    ((({ desk := .create settings now s, checked } : Terminal σ).after (.openOn source)).settle
      remote).lines = [] := by
  have hunique : duplicateUrl items = none := (duplicateUrl_eq_none items).mpr hnodup
  have hhandled : (hostCallsOf (((Dialog.create settings).entered source).handle now
      ⟨(Session.fresh SessionToken.initial.next source).token,
        .loaded (.ok items)⟩).effects).flatMap hostLines = [] := by
    rw [Dialog.handle_loaded now rfl rfl hunique]
    rfl
  obtain ⟨time, hsettle⟩ := Desk.settle_opened remote settings now s source
  unfold settle moveTo
  change [] ++ List.flatMap hostLines (List.drop _
    (((Desk.create settings now s).after (.openOn source)).settle remote).hostCalls) = []
  rw [hsettle, hload, Desk.after, Desk.perform, Desk.follow_eq]
  exact hhandled

end Terminal

/-- A view of a feed that loads comes to its table, and to nothing else before. -/
theorem showView_loaded {remote : Remote σ} {s : σ} {source : FeedSource}
    (hload : (remote.load source.call s).1.outcome = .answers (.ok items))
    (hnodup : (items.map Item.url).Nodup) (options : ViewOptions) (settings : DialogSettings)
    (now : Int64) :
    ∃ t, showView remote source options (.create settings now s) = .ok t ∧
      t.checked = options.select ∧
      t.lines = (tableLines settings.pageSize source.title
        (.ofItems settings now items options.status options.naming)).map .out ∧
      t.desk = ((Desk.create settings now s).after (.openOn source)).moves remote
        (.settle :: options.changes.map .operate) ∧
      t.desk.Displays settings now source.title items options.status options.naming := by
  let t : Terminal σ := (({ desk := .create settings now s, checked := options.select } :
    Terminal σ).after (.openOn source)).settle remote
  have ht : t.desk.Displays settings now source.title items .all .title :=
    Desk.displays_loaded hload hnodup settings now
  have hquiet : t.lines = [] := Terminal.lines_loaded hload hnodup settings now options.select
  obtain ⟨u, hu, huchecked, hulines, hudesk, hudisplays⟩ := Terminal.present_displays remote ht options
  obtain ⟨hprinted, hkept, hlines⟩ := Terminal.printTable_displays hudisplays
  refine ⟨u.printTable, ?_, hkept.trans huchecked, ?_, hprinted.trans hudesk, ?_⟩
  · have hready : ¬ t.desk.dialog.phase ≠ .ready := not_not.mpr ht.phase
    change (if t.desk.dialog.phase ≠ .ready then _ else _) = _
    rw [if_neg hready, hu]
  · rw [hlines, hulines, hquiet, List.nil_append]
  · rw [hprinted]
    exact hudisplays

end

end FeedDesk.Console
