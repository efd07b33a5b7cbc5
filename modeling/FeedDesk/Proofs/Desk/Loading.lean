import FeedDesk.Proofs.Desk.Moves
import FeedDesk.Proofs.Dialog.Selection

/-!
# Feeds that load

A view that is opened on a feed whose items the server lists, no two of them under one address,
settles into showing all of them. From then on the screen has the table of the items under the
filter and the naming of the view, as of the time of the desk, whatever these are changed to.
-/
namespace FeedDesk

def ShownTable.ofItems (settings : DialogSettings) (now : Int64) (items : List Item)
    (filter : StatusFilter) (naming : Naming) : ShownTable :=
  let p := Projection.ofItems items filter naming ⟨now, settings.zone⟩
  ⟨p, p.needsPager settings.pageSize⟩

/-- The rows of a table are the items that its filter shows. -/
theorem ShownTable.ids_ofItems (settings : DialogSettings) (now : Int64) (items : List Item)
    (filter : StatusFilter) (naming : Naming) :
    (ofItems settings now items filter naming).projection.ids =
      (items.filter fun item => filter.shows item.status).map Item.url :=
  List.map_map

/-- A session with nothing else to remember shows the plain table of its items. -/
theorem Session.tabled_eq {s : Session} {items : List Item}
    (h : s.latch = none ∨ s.latch = some (items.any Item.namesDiffer)) (clock : Clock) :
    (s.tabled items clock).1 = .ofItems items s.filter s.naming clock :=
  Option.some.inj (Session.plain_shown h clock).shown

/-- Items with different addresses are shown as soon as they are loaded. -/
theorem Dialog.handle_loaded {d : Dialog} {s : Session} {items : List Item} (now : Int64)
    (hp : d.phase = .loading) (hs : d.session = some s) (hi : duplicateUrl items = none) :
    d.handle now ⟨s.token, .loaded (.ok items)⟩ =
      ⟨d.within .ready (s.shown items (d.clock now)),
        .host (.loading false) :: (d.tableEffects (s.tabled items (d.clock now)).1 ++
          [.host (.controls true)])⟩ := by
  simp only [handle, hs, onLoaded, hp, hi, ne_eq, not_true_eq_false, if_false]
  rfl

namespace Desk

variable {σ : Type} {settings : DialogSettings} {now : Int64} {title : String}
  {items : List Item} {filter : StatusFilter} {naming : Naming} {desk : Desk σ}

/-- A desk with a ready view of some items, whose table is on the screen under a title. -/
structure Displays (settings : DialogSettings) (now : Int64) (title : String) (items : List Item)
    (filter : StatusFilter) (naming : Naming) (desk : Desk σ) : Prop where
  settings_eq : desk.dialog.settings = settings
  wallClock_eq : desk.wallClock = now
  phase : desk.dialog.phase = .ready
  session : ∃ s, desk.dialog.session = some s ∧ s.filter = filter ∧ s.naming = naming ∧
    s.Plain items ⟨now, settings.zone⟩
  title_eq : desk.screen.title = title
  table : desk.screen.table = some (.ofItems settings now items filter naming)

theorem Displays.offers (h : desk.Displays settings now title items filter naming) :
    desk.dialog.Offers items := by
  obtain ⟨s, hs, -, -, hplain⟩ := h.session
  exact ⟨h.phase, s, hs, hplain.loaded⟩

theorem Displays.refreshed (h : desk.Displays settings now title items filter naming)
    {s : Session} (hi : s.items = some items)
    (hlatch : s.latch = some (items.any Item.namesDiffer)) :
    (desk.follow ((desk.dialog.within desk.dialog.phase s).refresh desk.wallClock)).Displays
      settings now title items s.filter s.naming := by
  obtain ⟨rfl, rfl, hp, -, htitle, -⟩ := h
  rw [Dialog.refresh_of_items rfl hi, follow_eq]
  refine ⟨rfl, rfl, hp, ⟨_, rfl, rfl, rfl, Session.plain_shown (.inr hlatch) _⟩, htitle, ?_⟩
  rw [Session.tabled_eq (.inr hlatch)]
  rfl

/-- A desk that displays its items takes every change of the filter and of the naming. -/
theorem Displays.change (h : desk.Displays settings now title items filter naming)
    {op : Operation} (hop : op.IsChange) :
    (desk.perform op).1 = .ok () ∧ (desk.after op).Displays settings now title items
      (op.filterAfter filter) (op.namingAfter naming) := by
  obtain ⟨s, hs, rfl, rfl, hplain⟩ := h.session
  cases op with
  | setFilter filter =>
    simp only [after, perform, Dialog.perform, Dialog.setFilter,
      Dialog.whenReady_of_ready h.phase hs]
    exact ⟨trivial, h.refreshed (s := { s with filter }) hplain.loaded hplain.remembered⟩
  | setNaming naming =>
    simp only [after, perform, Dialog.perform, Dialog.setNaming,
      Dialog.whenReady_of_ready h.phase hs]
    exact ⟨trivial, h.refreshed (s := { s with naming }) hplain.loaded hplain.remembered⟩
  | openOn | fetch | retry | cancel | deliver => exact hop.elim

/-- A view that was just opened settles by way of one call for its items. -/
theorem settle_opened (remote : Remote σ) (settings : DialogSettings) (wallClock : Int64) (s : σ)
    (source : FeedSource) :
    ∃ time, ((create settings wallClock s).after (.openOn source)).settle remote =
      ({ (create settings wallClock s).after (.openOn source) with
          remote := (remote.load source.call s).2
          time
          tasks := []
          remoteCalls := [source.call] } : Desk σ).after
        (.deliver (loadEvent SessionToken.initial.next (remote.load source.call s).1.outcome)) :=
  ⟨_, rfl⟩

/-- A view that is opened on a feed settles into showing all of its items. -/
theorem displays_loaded {remote : Remote σ} {s : σ} {source : FeedSource}
    (hload : (remote.load source.call s).1.outcome = .answers (.ok items))
    (hnodup : (items.map Item.url).Nodup) (settings : DialogSettings) (wallClock : Int64) :
    (((create settings wallClock s).after (.openOn source)).settle remote).Displays settings
      wallClock source.title items .all .title := by
  have hunique : duplicateUrl items = none := (duplicateUrl_eq_none items).mpr hnodup
  obtain ⟨time, hsettle⟩ := settle_opened remote settings wallClock s source
  rw [hsettle, hload]
  change (follow _ (((Dialog.create settings).entered source).handle wallClock
    ⟨(Session.fresh SessionToken.initial.next source).token, .loaded (.ok items)⟩)).Displays
      settings wallClock source.title items .all .title
  have hlatch : (Session.fresh SessionToken.initial.next source).latch = none ∨
      (Session.fresh SessionToken.initial.next source).latch =
        some (items.any Item.namesDiffer) := .inl rfl
  rw [Dialog.handle_loaded wallClock rfl rfl hunique, follow_eq, Session.tabled_eq hlatch]
  exact ⟨rfl, rfl, rfl, ⟨_, rfl, rfl, rfl, Session.plain_shown hlatch _⟩, rfl, rfl⟩

end Desk

end FeedDesk
