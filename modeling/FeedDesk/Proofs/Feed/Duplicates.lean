import FeedDesk.Feed.Item
import Mathlib.Order.Bounds.Basic

/-!
# Items that share an address

No duplicate is found exactly if the addresses of the items are pairwise distinct. Otherwise the
address is found of the first item that has the address of one before it.
-/
namespace FeedDesk

/-- Whether the item at an index has an address that was seen before the items, or that an item
before it has. -/
def RepeatsAfter (seen : List String) (items : List Item) (i : Nat) : Prop :=
  ∃ item, items[i]? = some item ∧
    (item.url ∈ seen ∨ ∃ j < i, ∃ earlier, items[j]? = some earlier ∧ earlier.url = item.url)

def RepeatsAt (items : List Item) (i : Nat) : Prop :=
  ∃ item, items[i]? = some item ∧
    ∃ j < i, ∃ earlier, items[j]? = some earlier ∧ earlier.url = item.url

theorem duplicateUrlAfter_eq_none (seen : List String) (items : List Item) :
    duplicateUrlAfter seen items = none ↔
      (∀ item ∈ items, item.url ∉ seen) ∧ (items.map Item.url).Nodup := by
  induction items generalizing seen with
  | nil => simp [duplicateUrlAfter]
  | cons item items ih =>
    by_cases h : item.url ∈ seen
    · simp [duplicateUrlAfter, h]
    · have hc : seen.contains item.url = false := by simpa using h
      rw [duplicateUrlAfter, hc, if_neg Bool.false_ne_true, ih]
      simp only [List.mem_cons, not_or, List.map_cons, List.nodup_cons, List.mem_map,
        forall_eq_or_imp]
      constructor
      · rintro ⟨hall, hnodup⟩
        exact ⟨⟨h, fun i hi => (hall i hi).2⟩, fun ⟨i, hi, he⟩ => (hall i hi).1 he, hnodup⟩
      · rintro ⟨⟨_, hall⟩, hnew, hnodup⟩
        exact ⟨fun i hi => ⟨fun he => hnew ⟨i, hi, he⟩, hall i hi⟩, hnodup⟩

theorem duplicateUrl_eq_none (items : List Item) :
    duplicateUrl items = none ↔ (items.map Item.url).Nodup := by
  simp [duplicateUrl, duplicateUrlAfter_eq_none]

/-! ## The address that is found -/

section
variable {seen : List String} {item : Item} {items : List Item} {url : String}

theorem repeatsAfter_zero : RepeatsAfter seen (item :: items) 0 ↔ item.url ∈ seen := by
  simp [RepeatsAfter]

theorem repeatsAfter_succ {i : Nat} :
    RepeatsAfter seen (item :: items) (i + 1) ↔ RepeatsAfter (item.url :: seen) items i := by
  have hbefore (later : Item) : (later.url ∈ seen ∨ ∃ j < i + 1, ∃ earlier,
      (item :: items)[j]? = some earlier ∧ earlier.url = later.url) ↔
      (later.url ∈ item.url :: seen ∨ ∃ j < i, ∃ earlier,
        items[j]? = some earlier ∧ earlier.url = later.url) := by
    rw [Nat.exists_lt_succ_left]
    simp only [List.getElem?_cons_zero, List.getElem?_cons_succ, Option.some.injEq,
      exists_eq_left', List.mem_cons, eq_comm (a := item.url)]
    tauto
  simp only [RepeatsAfter, List.getElem?_cons_succ, hbefore]

/-- What is found is the address at the first place that repeats one: the addresses seen on the way
are those before the items and those of the items passed over. -/
theorem duplicateUrlAfter_eq_some_iff :
    duplicateUrlAfter seen items = some url ↔ ∃ i repeated, items[i]? = some repeated ∧
      repeated.url = url ∧ RepeatsAfter seen items i ∧ ∀ k < i, ¬ RepeatsAfter seen items k := by
  induction items generalizing seen with
  | nil => simp [duplicateUrlAfter]
  | cons item items ih =>
    by_cases h : item.url ∈ seen
    · rw [duplicateUrlAfter, if_pos (List.contains_iff_mem.mpr h), Option.some.injEq]
      constructor
      · exact fun hurl => ⟨0, item, rfl, hurl, repeatsAfter_zero.mpr h, by simp⟩
      · rintro ⟨i, repeated, hget, hurl, -, hfirst⟩
        obtain rfl : i = 0 := by
          by_contra hi
          exact hfirst 0 (Nat.pos_of_ne_zero hi) (repeatsAfter_zero.mpr h)
        obtain rfl := Option.some.inj hget
        exact hurl
    · have hnew : ¬ seen.contains item.url = true := fun hc => h (List.contains_iff_mem.mp hc)
      have hzero : ¬ RepeatsAfter seen (item :: items) 0 := fun hr => h (repeatsAfter_zero.mp hr)
      rw [duplicateUrlAfter, if_neg hnew, ih]
      constructor
      · rintro ⟨i, repeated, hget, hurl, hrepeats, hfirst⟩
        refine ⟨i + 1, repeated, hget, hurl, repeatsAfter_succ.mpr hrepeats, ?_⟩
        rw [Nat.forall_lt_succ_left]
        exact ⟨hzero, fun k hk hr => hfirst k hk (repeatsAfter_succ.mp hr)⟩
      · rintro ⟨i, repeated, hget, hurl, hrepeats, hfirst⟩
        cases i with
        | zero => exact absurd hrepeats hzero
        | succ i =>
          refine ⟨i, repeated, hget, hurl, repeatsAfter_succ.mp hrepeats, fun k hk hr => ?_⟩
          exact hfirst (k + 1) (Nat.succ_lt_succ hk) (repeatsAfter_succ.mpr hr)

theorem repeatsAfter_nil {i : Nat} : RepeatsAfter [] items i ↔ RepeatsAt items i := by
  simp [RepeatsAfter, RepeatsAt]

/-- What is found in a list of items is the address of the first item that repeats one. -/
theorem duplicateUrl_eq_some_iff :
    duplicateUrl items = some url ↔ ∃ i, IsLeast {i | RepeatsAt items i} i ∧
      ∃ repeated, items[i]? = some repeated ∧ repeated.url = url := by
  rw [duplicateUrl, duplicateUrlAfter_eq_some_iff]
  simp only [repeatsAfter_nil]
  constructor
  · rintro ⟨i, repeated, hget, hurl, hrepeats, hfirst⟩
    refine ⟨i, ⟨hrepeats, fun k hk => ?_⟩, repeated, hget, hurl⟩
    exact Nat.le_of_not_lt fun hlt => hfirst k hlt hk
  · rintro ⟨i, ⟨hrepeats, hleast⟩, repeated, hget, hurl⟩
    exact ⟨i, repeated, hget, hurl, hrepeats, fun k hk hr => absurd (hleast hr) (by omega)⟩

end

end FeedDesk
