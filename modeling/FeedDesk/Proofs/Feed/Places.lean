import FeedDesk.Proofs.Feed.Members

/-!
# Elements of an item

An item may also be given as an array, whose elements count by their places. They are read like
the members with the leading names, each by the rules for its own field, and the fields without an
element are the defaults. There is an element for the address at least, and for every field at
most.
-/
namespace FeedDesk.Item

/-- Whether each field of an item comes of the element at its place. -/
def HasElements (item : Item) (vs : List Json) : Prop :=
  ∀ (place : Nat) (name : String), memberNames[place]? = some name →
    item.field? name = fieldOf? name vs[place]?

/-- How the elements of an array count for what is decoded from its text. -/
structure ReadsByPlace (vs : List Json) (decoded : Option Item) : Prop where
  /-- The array is decoded like every object that gives its elements under the leading names. -/
  named : 1 ≤ vs.length → vs.length ≤ 15 → ∀ text,
    Json.parse? text = some (.ofMembers (memberNames.zip vs)) → decoded = decode? text
  /-- Such an object can be written. -/
  written : Json.parse? (Json.render (.ofMembers (memberNames.zip vs))) =
    some (.ofMembers (memberNames.zip vs))
  /-- The item is the one whose fields come of the elements at their places. -/
  placed : ∀ item, decoded = some item ↔ vs.length ≤ 15 ∧ item.HasElements vs
  /-- The address must be there. -/
  empty : vs = [] → decoded = none
  /-- There must be no more elements than fields. -/
  long : 15 < vs.length → decoded = none

section

variable {vs : List Json}

theorem ofJson?_array_of_le (h : vs.length ≤ 15) :
    ofJson? (.array vs) = ofRecord? ⟨memberNames.zip vs⟩ := by
  rw [ofJson?, Record.ofJson?, if_pos (show vs.length ≤ memberNames.length from h),
    Option.bind_some]

theorem ofJson?_array_of_lt (h : 15 < vs.length) : ofJson? (.array vs) = none := by
  rw [ofJson?, Record.ofJson?, if_neg (show ¬ vs.length ≤ memberNames.length from not_le_of_gt h),
    Option.bind_none]

theorem ofJson?_named (vs : List Json) :
    ofJson? (.ofMembers (memberNames.zip vs)) = ofRecord? ⟨memberNames.zip vs⟩ := by
  rw [ofJson?, Record.ofJson?_ofMembers (Record.names_zip memberNames vs) memberNames_nodup,
    Option.bind_some]

/-- Elements are read into the fields at their places. -/
theorem ofRecord?_zip (vs : List Json) (item : Item) :
    ofRecord? ⟨memberNames.zip vs⟩ = some item ↔ item.HasElements vs := by
  rw [ofRecord?_eq_some_iff]
  constructor
  · intro h place name hname
    rw [← Record.get?_zip memberNames_nodup vs hname]
    exact h name (List.mem_of_getElem? hname)
  · intro h name hname
    obtain ⟨place, hplace⟩ := List.mem_iff_getElem?.mp hname
    rw [Record.get?_zip memberNames_nodup vs hplace]
    exact h place name hplace

theorem ofJson?_array_eq_some_iff (item : Item) :
    ofJson? (.array vs) = some item ↔ vs.length ≤ 15 ∧ item.HasElements vs := by
  by_cases h : vs.length ≤ 15
  · rw [ofJson?_array_of_le h, ofRecord?_zip]
    exact (and_iff_right h).symm
  · rw [ofJson?_array_of_lt (not_le.mp h)]
    simp [h]

end

/-- What is decoded from an array is what is decoded from the object that gives its elements under
the names of the fields, in the order in which these are declared. -/
theorem decode?_array (text : String) (vs : List Json) (h : Json.parse? text = some (.array vs)) :
    ReadsByPlace vs (decode? text) := by
  have hlegible : (Json.ofMembers (memberNames.zip vs)).Legible := by
    refine Json.legible_ofMembers fun m hm => ?_
    cases Json.legible_of_parse? h with
    | array hvs => exact hvs m.2 (List.of_mem_zip hm).2
  rw [decode?, h, Option.bind_some]
  refine ⟨?_, Json.parse?_render hlegible, ofJson?_array_eq_some_iff, ?_, ofJson?_array_of_lt⟩
  · intro _ hle other hother
    rw [ofJson?_array_of_le hle, decode?, hother, Option.bind_some, ofJson?_named]
  · rintro rfl
    refine Option.eq_none_iff_forall_ne_some.mpr fun item hitem => ?_
    have haddress := ((ofJson?_array_eq_some_iff item).mp hitem).2 0 "URL" rfl
    cases haddress

def leadingElements : List Json :=
  [.ofString "u", .ofString "T", .ofString "f", .object [(some "NEW", .null)], .ofString "",
    .ofInt 5, .ofInt 2, .ofInt (-1)]

def leading : String := "[\"u\",\"T\",\"f\",\x7b\"NEW\":null\x7d,\"\",5,2,-1]"

theorem parse?_leading : Json.parse? leading = some (.array leadingElements) := by
  have hwritten : Json.render (.array leadingElements) = leading := by decide +kernel
  have hstatus : (Json.object [(some "NEW", .null)]).Legible :=
    .object (List.forall_mem_singleton.mpr .null)
  rw [← hwritten]
  refine Json.parse?_render (.array ?_)
  simp [leadingElements, Json.legible_ofInt, Json.legible_ofString, hstatus]

theorem leading_readsByPlace :
    Json.parse? leading = some (.array leadingElements) ∧
      ReadsByPlace leadingElements (decode? leading) ∧
      decode? leading = some
        { url := "u", title := "T", filename := "f", status := .new, time := 5,
          sizeMb := .finite false 4503599627370496 (-51), sizeLow := 4294967295 } := by
  refine ⟨parse?_leading, decode?_array leading leadingElements parse?_leading, ?_⟩
  rw [decode?, parse?_leading]
  decide +kernel

end FeedDesk.Item
