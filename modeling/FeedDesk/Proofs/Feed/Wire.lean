import FeedDesk.Feed.Item
import FeedDesk.Proofs.Json.Record
import FeedDesk.Proofs.Json.RoundTrip

/-!
# Items on the wire and back

What is written for a list of items is read as these items. A size in megabytes has to be a whole
number of a moderate magnitude, for which the shortest digits and the quick rule for reading them
are exact.
-/
namespace FeedDesk

open Number

/-! ## Members -/

namespace Json

theorem asInteger?_ofInt {i : Int} (hlow : -Int.pow 2 63 ≤ i) (hhigh : i < Int.pow 2 64) :
    asInteger? (ofInt i) = some i := by
  rw [ofInt, asInteger?, NumberLiteral.value?_ofInt hlow hhigh]

theorem asInt64?_ofInt (x : Int64) : asInt64? (ofInt x.toInt) = some x := by
  have hlow : -Int.pow 2 63 ≤ x.toInt := x.le_toInt
  have hhigh : x.toInt < Int.pow 2 63 := x.toInt_lt
  have hword : x.toInt < Int.pow 2 64 := lt_trans hhigh (by decide)
  rw [asInt64?, asInteger?_ofInt hlow hword, Option.filter, if_pos (decide_eq_true hhigh),
    Option.map_some, Int64.ofInt_toInt]

theorem asBinary64?_ofBinary64 {x : Binary64} (h : x.IsWhole (2 ^ 49)) :
    asBinary64? (ofBinary64 x) = some x := by
  obtain ⟨n, hn, -, hreal⟩ := NumberLiteral.real?_ofBinary64? h
  rw [ofBinary64, hn]
  exact hreal

theorem asString?_ofString (s : String) : asString? (ofString s) = some s := rfl

theorem legible_ofInt (i : Int) : (ofInt i).Legible := .number (NumberLiteral.legible_ofInt i)

theorem legible_ofBinary64 {x : Binary64} (h : x.IsWhole (2 ^ 49)) : (ofBinary64 x).Legible := by
  obtain ⟨n, hn, hlegible, -⟩ := NumberLiteral.real?_ofBinary64? h
  rw [ofBinary64, hn]
  exact .number hlegible

theorem legible_ofString (s : String) : (ofString s).Legible := .text (some s)

theorem legible_ofMembers {members : List (String × Json)} (h : ∀ m ∈ members, m.2.Legible) :
    (ofMembers members).Legible := by
  refine .object fun m hm => ?_
  obtain ⟨member, hmember, rfl⟩ := List.mem_map.mp hm
  exact h member hmember

end Json

theorem ItemStatus.ofJson?_label (s : ItemStatus) : ofJson? (.ofString s.label) = some s :=
  congrArg some (ofLabel_label s)

namespace Item

theorem sizeHalf?_ofNat (n : UInt32) : sizeHalf? (.ofNat n.toNat) = some n := by
  have hlt : n.toNat < 4294967296 := n.toNat_lt
  have hmod : ((n.toNat : Int) % Int.pow 2 32).toNat = n.toNat := by
    rw [show Int.pow 2 32 = 4294967296 by decide]
    omega
  have hlow : -Int.pow 2 63 ≤ (n.toNat : Int) := le_trans (by decide) (Int.natCast_nonneg _)
  have hhigh : (n.toNat : Int) < Int.pow 2 64 :=
    lt_trans (Int.ofNat_lt.mpr hlt) (by decide)
  rw [sizeHalf?, Json.ofNat, Json.asInteger?_ofInt hlow hhigh, Option.map_some, hmod,
    UInt32.ofNat_toNat]

theorem memberNames_nodup : memberNames.Nodup := by decide

/-! ## Items -/

theorem ofJson?_toJson {item : Item} (h : item.sizeMb.IsWhole (2 ^ 49)) :
    ofJson? item.toJson = some item := by
  rw [ofJson?, toJson, Record.ofJson?_ofMembers ?_ memberNames_nodup, Option.bind_some]
  · simp [ofRecord?, Record.required, Record.withDefault, Record.get?, List.lookup_cons,
      Json.asString?_ofString, ItemStatus.ofJson?_label, Json.asInt64?_ofInt,
      Json.asBinary64?_ofBinary64 h, sizeHalf?_ofNat]
  · exact List.Sublist.refl memberNames

theorem legible_toJson {item : Item} (h : item.sizeMb.IsWhole (2 ^ 49)) :
    item.toJson.Legible := by
  refine Json.legible_ofMembers ?_
  simp [Json.legible_ofInt, Json.legible_ofString, Json.ofNat, Json.legible_ofBinary64 h]

theorem listOfJson?_listToJson {items : List Item}
    (h : ∀ item ∈ items, item.sizeMb.IsWhole (2 ^ 49)) :
    listOfJson? (listToJson items) = some items := by
  rw [listOfJson?, listToJson, Json.asList?]
  induction items with
  | nil => rfl
  | cons item items ih =>
    obtain ⟨hitem, hitems⟩ := List.forall_mem_cons.mp h
    rw [List.map_cons, List.mapM_cons, ofJson?_toJson hitem, ih hitems]
    rfl

/-- A list of items is read from the text that is written for it. -/
theorem list_roundTrip (items : List Item) (h : ∀ item ∈ items, item.sizeMb.IsWhole (2 ^ 49)) :
    (Json.parse? (Json.render (listToJson items))).bind listOfJson? = some items := by
  have hlegible : (listToJson items).Legible := by
    refine .array fun v hv => ?_
    obtain ⟨item, hitem, rfl⟩ := List.mem_map.mp hv
    exact legible_toJson (h item hitem)
  rw [Json.parse?_render hlegible, Option.bind_some, listOfJson?_listToJson h]

/-- Items with escaped and astral characters, both ends of the integers, negative zero, and a size
at the limit. -/
def extremes : List Item :=
  [{ url := "http://x/\u00e9?\"\\\x00\u2028", title := "\x1f\x7f\n", filename := "😀",
     time := Int64.minValue, sizeMb := .zero true, sizeLow := 4294967295, sizeHigh := 2147483648,
     rule := Int64.maxValue, dupeScore := -1 },
   { url := "", status := .backlog, sizeMb := .finite true 4503599627370496 (-3) }]

theorem extremes_roundTrip :
    (∀ item ∈ extremes, item.sizeMb.IsWhole (2 ^ 49)) ∧
      (Json.parse? (Json.render (listToJson extremes))).bind listOfJson? = some extremes := by
  have hwhole : ∀ item ∈ extremes, item.sizeMb.IsWhole (2 ^ 49) := by
    refine List.forall_mem_cons.mpr ⟨?_, List.forall_mem_singleton.mpr ?_⟩
    · exact Binary64.isWhole_zero true _
    · exact ⟨⟨by decide, by decide, by decide, by decide⟩, 2 ^ 49, le_rfl, by norm_num⟩
  exact ⟨hwhole, list_roundTrip extremes hwhole⟩

end Item

end FeedDesk
