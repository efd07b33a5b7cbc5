import FeedDesk.Proofs.Feed.Stores
import FeedDesk.Proofs.Text.Blank
import Mathlib.Data.List.Perm.Subperm
import Mathlib.Data.Nat.Find

/-!
# The search for saved feeds

Numbers are looked up from one on until one has no address option. The options of different numbers
have different names, so a list of entries has addresses for no more numbers than it has entries,
and the search ends at the first number without one; it would go on for ever only if every number
had a feed. What it finds are the feeds in front of this number, as their options describe them,
less those whose address is blank.
-/
namespace FeedDesk.FeedDefinition

open Text ConfigEntry

def numbersFrom (id : UInt32) (n : Nat) : List UInt32 :=
  (List.range n).map fun k => id + UInt32.ofNat k

def OptionText (entries : List ConfigEntry) (name text : String) : Prop :=
  (∃ entry, FirstNamed entries name entry ∧ entry.value = text) ∨
    ¬ Named entries name ∧ text = ""

/-- A feed as the options of its number describe it. -/
structure Described (entries : List ConfigEntry) (feed : FeedDefinition) : Prop where
  url : ∃ entry, FirstNamed entries (optionName feed.id "URL") entry ∧ entry.value = feed.url
  name : OptionText entries (optionName feed.id "Name") feed.name
  category : OptionText entries (optionName feed.id "Category") feed.category
  priority : OptionText entries (optionName feed.id "Priority") feed.priority

/-- A feed with an address, no number up to whose own is without an address option. -/
structure Listed (entries : List ConfigEntry) (feed : FeedDefinition) : Prop where
  described : Described entries feed
  numbered : 1 ≤ feed.id
  reached : ∀ id, 1 ≤ id → id ≤ feed.id → Named entries (optionName id "URL")
  addressed : trim feed.url ≠ ""

/-- What the search for the saved feeds in a list of entries comes to. -/
structure Enumerated (entries : List ConfigEntry) : Prop where
  ends : ∃ search, search? (.ofEntries entries) = some search ∧
    search.asked.length ≤ entries.length + 1 ∧
    all (.ofEntries entries) = search.found.filter hasUrl
  ordered : (all (.ofEntries entries)).Pairwise fun feed later => feed.id < later.id
  mem_iff : ∀ feed, feed ∈ all (.ofEntries entries) ↔ Listed entries feed
  opened : ∀ entry ∈ menu (.ofEntries entries), ∃ feed,
    read? (.ofEntries entries) entry.1 = some feed ∧ trim feed.url ≠ "" ∧ feed.label = entry.2

/-! ## Feeds and their options -/

theorem hasUrl_iff (feed : FeedDefinition) : feed.hasUrl = true ↔ trim feed.url ≠ "" := by
  rw [hasUrl, Bool.not_eq_true', ← Bool.not_eq_true, isAllBlank_iff]

section
variable {entries : List ConfigEntry} {id : UInt32} {feed : FeedDefinition}

theorem getD_value?_eq_iff {name text : String} :
    ((Options.ofEntries entries).value? name).getD "" = text ↔ OptionText entries name text := by
  rw [OptionText, ← Options.value?_eq_some_iff, ← Options.value?_eq_none_iff]
  cases (Options.ofEntries entries).value? name with
  | none => simp [eq_comm]
  | some value => simp

theorem read?_eq_none_iff :
    read? (.ofEntries entries) id = none ↔ ¬ Named entries (optionName id "URL") := by
  rw [read?, Option.map_eq_none_iff, Options.value?_eq_none_iff]

theorem read?_eq_some_iff :
    read? (.ofEntries entries) id = some feed ↔ feed.id = id ∧ Described entries feed := by
  constructor
  · intro h
    obtain ⟨url, hurl, rfl⟩ := Option.map_eq_some_iff.mp h
    exact ⟨rfl, Options.value?_eq_some_iff.mp hurl, getD_value?_eq_iff.mp rfl,
      getD_value?_eq_iff.mp rfl, getD_value?_eq_iff.mp rfl⟩
  · rintro ⟨rfl, h⟩
    rw [read?, Options.value?_eq_some_iff.mpr h.url, getD_value?_eq_iff.mpr h.name,
      getD_value?_eq_iff.mpr h.category, getD_value?_eq_iff.mpr h.priority]
    rfl

end

/-! ## Numbers in a row -/

theorem length_numbersFrom (id : UInt32) (n : Nat) : (numbersFrom id n).length = n := by
  rw [numbersFrom, List.length_map, List.length_range]

theorem add_one_add_ofNat (id : UInt32) (k : Nat) :
    id + 1 + UInt32.ofNat k = id + UInt32.ofNat (k + 1) := by
  rw [UInt32.ofNat_add, UInt32.add_assoc, UInt32.add_comm 1]
  rfl

theorem numbersFrom_succ (id : UInt32) (n : Nat) :
    numbersFrom id (n + 1) = id :: numbersFrom (id + 1) n := by
  simp only [numbersFrom, List.range_succ_eq_map, List.map_cons, List.map_map, add_one_add_ofNat]
  exact congrArg (· :: _) (UInt32.add_zero id)

theorem toNat_one_add_ofNat {k : Nat} (h : k + 1 < UInt32.size) :
    (1 + UInt32.ofNat k).toNat = k + 1 := by
  have hk : k % UInt32.size = k := Nat.mod_eq_of_lt (by omega)
  rw [UInt32.toNat_add, UInt32.toNat_ofNat']
  change (1 + k % UInt32.size) % UInt32.size = k + 1
  rw [hk, Nat.add_comm, Nat.mod_eq_of_lt h]

theorem mem_numbersFrom_one {id : UInt32} {n : Nat} (h : n < UInt32.size) :
    id ∈ numbersFrom 1 n ↔ 1 ≤ id ∧ id.toNat ≤ n := by
  rw [numbersFrom, List.mem_map]
  constructor
  · rintro ⟨k, hk, rfl⟩
    have hk : k < n := List.mem_range.mp hk
    have hnumber : (1 + UInt32.ofNat k).toNat = k + 1 := toNat_one_add_ofNat (by omega)
    rw [UInt32.le_iff_toNat_le, hnumber]
    exact ⟨Nat.le_add_left 1 k, hk⟩
  · rintro ⟨hlow, hhigh⟩
    have hpositive : 1 ≤ id.toNat := UInt32.le_iff_toNat_le.mp hlow
    refine ⟨id.toNat - 1, List.mem_range.mpr (by omega), ?_⟩
    rw [← UInt32.toNat_inj, toNat_one_add_ofNat (by omega)]
    omega

theorem pairwise_numbersFrom_one {n : Nat} (h : n < UInt32.size) :
    (numbersFrom 1 n).Pairwise (· < ·) := by
  rw [numbersFrom, List.pairwise_map]
  refine List.pairwise_lt_range.imp_of_mem fun {k k'} hk hk' hlt => ?_
  rw [List.mem_range] at hk hk'
  rw [UInt32.lt_iff_toNat_lt, toNat_one_add_ofNat (by omega), toNat_one_add_ofNat (by omega)]
  omega

/-! ## The search -/

section
variable {read : UInt32 → Option FeedDefinition} {id : UInt32} {left n : Nat}

/-- The search goes up to the first number without a feed. -/
theorem searchFrom?_eq (hn : n < left) (hfound : ∀ i ∈ numbersFrom id n, (read i).isSome)
    (hmissing : read (id + .ofNat n) = none) :
    searchFrom? read left id =
      some ⟨numbersFrom id (n + 1), (numbersFrom id n).filterMap read⟩ := by
  induction n generalizing id left with
  | zero =>
    obtain ⟨left, rfl⟩ := Nat.exists_eq_succ_of_ne_zero (Nat.ne_zero_of_lt hn)
    have hid : id + UInt32.ofNat 0 = id := UInt32.add_zero id
    rw [hid] at hmissing
    rw [searchFrom?, hmissing, numbersFrom_succ]
    rfl
  | succ n ih =>
    obtain ⟨left, rfl⟩ := Nat.exists_eq_succ_of_ne_zero (Nat.ne_zero_of_lt hn)
    rw [numbersFrom_succ, List.forall_mem_cons] at hfound
    obtain ⟨feed, hfeed⟩ := Option.isSome_iff_exists.mp hfound.1
    rw [← add_one_add_ofNat] at hmissing
    rw [searchFrom?, hfeed, ih (Nat.lt_of_succ_lt_succ hn) hfound.2 hmissing,
      numbersFrom_succ id (n + 1), numbersFrom_succ id n, List.filterMap_cons, hfeed]
    rfl

/-- A search that comes to nothing has found a feed for each of its numbers. -/
theorem searchFrom?_eq_none_iff :
    searchFrom? read left id = none ↔ ∀ i ∈ numbersFrom id left, (read i).isSome := by
  induction left generalizing id with
  | zero => simp [searchFrom?, numbersFrom]
  | succ left ih =>
    rw [searchFrom?, numbersFrom_succ, List.forall_mem_cons, ← ih]
    cases read id with
    | none => simp
    | some feed => cases searchFrom? read left (id + 1) <;> simp

theorem mem_numbersFrom_size (i : UInt32) : i ∈ numbersFrom id UInt32.size := by
  refine List.mem_map.mpr ⟨(i - id).toNat, List.mem_range.mpr (i - id).toNat_lt, ?_⟩
  rw [UInt32.ofNat_toNat, UInt32.add_comm, UInt32.sub_add_cancel]

end

theorem search?_eq_none_iff {options : Options} :
    search? options = none ↔ ∀ id, (read? options id).isSome := by
  rw [search?, searchFrom?_eq_none_iff]
  exact ⟨fun h id => h id (mem_numbersFrom_size id), fun h id _ => h id⟩

section
variable {entries : List ConfigEntry}

/-- Options of different numbers are different entries. -/
theorem length_le_of_named {ids : List UInt32} (hids : ids.Nodup)
    (h : ∀ id ∈ ids, Named entries (optionName id "URL")) : ids.length ≤ entries.length := by
  let names := ids.map fun id => lower (optionName id "URL")
  have hnames : names.Nodup := by
    refine hids.map fun i j hsame => ?_
    exact (eqIgnoreCase_optionName.mp (eqIgnoreCase_iff.mpr hsame)).1
  have hsubset : names ⊆ entries.map fun entry => lower entry.name := by
    intro name hname
    obtain ⟨id, hid, rfl⟩ := List.mem_map.mp hname
    obtain ⟨entry, hmem, hsame⟩ := h id hid
    exact List.mem_map.mpr ⟨entry, hmem, eqIgnoreCase_iff.mp hsame⟩
  have hle : names.length ≤ (entries.map fun entry => lower entry.name).length :=
    (List.subperm_of_subset hnames hsubset).length_le
  simpa only [names, List.length_map] using hle

/-- Among the numbers up to one more than that of the entries there is a first without a feed. -/
theorem exists_missing (h : entries.length < UInt32.size - 1) : ∃ n ≤ entries.length,
    (∀ i ∈ numbersFrom 1 n, (read? (.ofEntries entries) i).isSome) ∧
      read? (.ofEntries entries) (1 + .ofNat n) = none := by
  have hmissing : ∃ n, n ≤ entries.length ∧
      read? (.ofEntries entries) (1 + .ofNat n) = none := by
    -- otherwise one number more than there are entries would have an address
    by_contra hnone
    have hnamed : ∀ id ∈ numbersFrom 1 (entries.length + 1),
        Named entries (optionName id "URL") := by
      intro id hid
      obtain ⟨k, hk, rfl⟩ := List.mem_map.mp hid
      by_contra hunnamed
      exact hnone ⟨k, Nat.lt_succ_iff.mp (List.mem_range.mp hk), read?_eq_none_iff.mpr hunnamed⟩
    have hnodup : (numbersFrom 1 (entries.length + 1)).Nodup :=
      (pairwise_numbersFrom_one (by omega)).imp UInt32.ne_of_lt
    have hle := length_le_of_named hnodup hnamed
    rw [length_numbersFrom] at hle
    omega
  obtain ⟨n, ⟨hle, hnone⟩, hfirst⟩ := Nat.findX hmissing
  refine ⟨n, hle, fun i hi => ?_, hnone⟩
  obtain ⟨k, hk, rfl⟩ := List.mem_map.mp hi
  have hk : k < n := List.mem_range.mp hk
  rw [← Option.ne_none_iff_isSome]
  exact fun hread => hfirst k hk ⟨by omega, hread⟩

theorem mem_found_iff {n : Nat} (hn : n < UInt32.size - 1)
    (hfound : ∀ i ∈ numbersFrom 1 n, (read? (.ofEntries entries) i).isSome)
    (hmissing : read? (.ofEntries entries) (1 + .ofNat n) = none) (feed : FeedDefinition) :
    feed ∈ (numbersFrom 1 n).filterMap (read? (.ofEntries entries)) ↔
      Described entries feed ∧ 1 ≤ feed.id ∧
        ∀ id, 1 ≤ id → id ≤ feed.id → Named entries (optionName id "URL") := by
  have hmem : ∀ id, id ∈ numbersFrom 1 n ↔ 1 ≤ id ∧ id.toNat ≤ n := fun id =>
    mem_numbersFrom_one (by omega)
  simp only [List.mem_filterMap, hmem, read?_eq_some_iff]
  constructor
  · rintro ⟨id, ⟨hlow, hhigh⟩, rfl, hdescribed⟩
    refine ⟨hdescribed, hlow, fun id hid hle => ?_⟩
    by_contra hunnamed
    have hle : id.toNat ≤ feed.id.toNat := UInt32.le_iff_toNat_le.mp hle
    have hread := hfound id ((hmem id).mpr ⟨hid, by omega⟩)
    rw [read?_eq_none_iff.mpr hunnamed] at hread
    cases hread
  · rintro ⟨hdescribed, hlow, hreached⟩
    refine ⟨feed.id, ⟨hlow, ?_⟩, rfl, hdescribed⟩
    -- the number without a feed would be among those up to the feed's own
    by_contra hbehind
    have hnumber : (1 + UInt32.ofNat n).toNat = n + 1 := toNat_one_add_ofNat (by omega)
    refine read?_eq_none_iff.mp hmissing (hreached _ ?_ ?_)
    · rw [UInt32.le_iff_toNat_le, hnumber]
      exact Nat.le_add_left 1 n
    · rw [UInt32.le_iff_toNat_le, hnumber]
      omega

/-- A list of entries that are fewer than the numbers has its saved feeds enumerated: the search
ends, and finds the feeds that the entries describe. -/
theorem all_enumerated (h : entries.length < UInt32.size - 1) : Enumerated entries := by
  obtain ⟨n, hle, hfound, hmissing⟩ := exists_missing h
  have hsearch : search? (.ofEntries entries) =
      some ⟨numbersFrom 1 (n + 1), (numbersFrom 1 n).filterMap (read? (.ofEntries entries))⟩ :=
    searchFrom?_eq (by omega) hfound hmissing
  have hall : all (.ofEntries entries) =
      ((numbersFrom 1 n).filterMap (read? (.ofEntries entries))).filter hasUrl := by
    rw [all, hsearch]
  have hmem : ∀ feed, feed ∈ all (.ofEntries entries) ↔ Listed entries feed := by
    intro feed
    rw [hall, List.mem_filter, mem_found_iff (by omega) hfound hmissing, hasUrl_iff]
    constructor
    · rintro ⟨⟨hdescribed, hnumbered, hreached⟩, haddressed⟩
      exact ⟨hdescribed, hnumbered, hreached, haddressed⟩
    · rintro ⟨hdescribed, hnumbered, hreached, haddressed⟩
      exact ⟨⟨hdescribed, hnumbered, hreached⟩, haddressed⟩
  constructor
  case ends =>
    refine ⟨_, hsearch, ?_, hall⟩
    rw [length_numbersFrom]
    omega
  case ordered =>
    rw [hall]
    apply List.Pairwise.filter
    apply (pairwise_numbersFrom_one (by omega)).filterMap
    intro i j hlt feed hfeed later hlater
    rw [(read?_eq_some_iff.mp hfeed).1, (read?_eq_some_iff.mp hlater).1]
    exact hlt
  case mem_iff => exact hmem
  case opened =>
    intro entry hentry
    obtain ⟨feed, hfeed, rfl⟩ := List.mem_map.mp hentry
    have hlisted : Listed entries feed := (hmem feed).mp hfeed
    exact ⟨feed, read?_eq_some_iff.mpr ⟨rfl, hlisted.described⟩, hlisted.addressed, rfl⟩

/-- Options of three feeds in any letter case and order, of which the first has a blank address and
the last is behind a gap. -/
def scatteredEntries : List ConfigEntry :=
  [⟨"feed2.url", "https://b.example.com/rss"⟩, ⟨"FEED1.URL", "  "⟩, ⟨"Feed2.Name", "Beta"⟩,
    ⟨"Feed4.URL", "https://d.example.com/rss"⟩, ⟨"Feed2.URL", "https://e.example.com/rss"⟩]

/-- The feed that is left of these goes by its first address. -/
theorem scattered_enumerated : scatteredEntries.length < UInt32.size - 1 ∧
    Enumerated scatteredEntries ∧
    ⟨2, "https://b.example.com/rss", "Beta", "", ""⟩ ∈ all (.ofEntries scatteredEntries) := by
  have hfew : scatteredEntries.length < UInt32.size - 1 := by decide
  have henumerated : Enumerated scatteredEntries := all_enumerated hfew
  refine ⟨hfew, henumerated, (henumerated.mem_iff _).mpr ?_⟩
  constructor
  case described =>
    have hread : read? (.ofEntries scatteredEntries) 2 =
        some ⟨2, "https://b.example.com/rss", "Beta", "", ""⟩ := rfl
    exact (read?_eq_some_iff.mp hread).2
  case numbered => decide
  case addressed => decide
  case reached =>
    intro id hlow hhigh
    have hlow : 1 ≤ id.toNat := UInt32.le_iff_toNat_le.mp hlow
    have hhigh : id.toNat ≤ 2 := UInt32.le_iff_toNat_le.mp hhigh
    have hid : id.toNat = 1 ∨ id.toNat = 2 := by omega
    rcases hid with hid | hid
    · obtain rfl : id = 1 := UInt32.toNat_inj.mp hid
      exact ⟨⟨"FEED1.URL", "  "⟩, by decide, by decide⟩
    · obtain rfl : id = 2 := UInt32.toNat_inj.mp hid
      exact ⟨⟨"feed2.url", "https://b.example.com/rss"⟩, by decide, by decide⟩

end

end FeedDesk.FeedDefinition
