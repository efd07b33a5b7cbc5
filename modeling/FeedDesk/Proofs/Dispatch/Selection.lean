import FeedDesk.Dispatch.Queue
import Mathlib.Data.List.Nodup

/-!
# The jobs of a selection

What is checked counts only through the items that it names. So checking is insensitive to its
order, to repetitions and to addresses that no item has; and, as no two items have one address, the
addresses of some of the items select these items and no others.
-/
namespace FeedDesk.JobQueue

variable {items : List Item} {checked checked' : List String}

theorem toList_of_ofList {jobs : List Job} {queue : JobQueue} (h : ofList? jobs = some queue) :
    queue.toList = jobs := by
  cases jobs with
  | nil => cases h
  | cons job rest =>
    obtain rfl := Option.some.inj h
    rfl

theorem toList_of_ofSelection {queue : JobQueue} (h : ofSelection? items checked = some queue) :
    queue.toList = (selected items checked).map Job.ofItem :=
  toList_of_ofList h

theorem selected_eq_nil_iff : selected items checked = [] ↔ ∀ item ∈ items, item.url ∉ checked := by
  simp [selected, List.filter_eq_nil_iff]

theorem ofSelection_eq_none :
    ofSelection? items checked = none ↔ ∀ item ∈ items, item.url ∉ checked := by
  rw [← selected_eq_nil_iff, ofSelection?]
  cases selected items checked <;> simp [ofList?]

theorem selected_congr (h : ∀ item ∈ items, item.url ∈ checked ↔ item.url ∈ checked') :
    selected items checked = selected items checked' := by
  refine List.filter_congr fun item hitem => ?_
  rw [Bool.eq_iff_iff, List.contains_iff_mem, List.contains_iff_mem]
  exact h item hitem

/-- The addresses of some of the items select these items, because an item is known by its
address. -/
theorem selected_eq_filter (hnodup : (items.map Item.url).Nodup) {p : Item → Bool}
    (h : ∀ url, url ∈ checked ↔ url ∈ (items.filter p).map Item.url) :
    selected items checked = items.filter p := by
  refine List.filter_congr fun item hitem => ?_
  rw [Bool.eq_iff_iff, List.contains_iff_mem, h, List.mem_map]
  constructor
  · rintro ⟨other, hother, hurl⟩
    obtain ⟨hmem, hp⟩ := List.mem_filter.mp hother
    exact List.inj_on_of_nodup_map hnodup hmem hitem hurl ▸ hp
  · exact fun hp => ⟨item, List.mem_filter.mpr ⟨hitem, hp⟩, rfl⟩

theorem nodup_selected (h : (items.map Item.url).Nodup) (checked : List String) :
    (((selected items checked).map Job.ofItem).map Job.url).Nodup := by
  rw [List.map_map]
  exact (List.filter_sublist.map Item.url).nodup h

end FeedDesk.JobQueue
