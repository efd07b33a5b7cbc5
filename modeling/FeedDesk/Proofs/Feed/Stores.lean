import FeedDesk.Feed.Definition
import FeedDesk.Proofs.Number.Digits
import Mathlib.Data.List.Nodup

/-!
# Stores of options

A list of entries answers for each name with the first entry that has it in some letter case, so
that entries behind it with the same name are never found. If no two entries have the same name,
the order of the list makes no difference either. A store of exact names answers alike for every
name that the list has in no other spelling, and has the same saved feeds if this holds for the
names of their options.
-/
namespace FeedDesk

open Text

def FeedDefinition.keys : List String := ["URL", "Name", "Category", "Priority"]

namespace ConfigEntry

def Named (entries : List ConfigEntry) (name : String) : Prop :=
  ∃ entry ∈ entries, eqIgnoreCase entry.name name = true

def FirstNamed (entries : List ConfigEntry) (name : String) (entry : ConfigEntry) : Prop :=
  eqIgnoreCase entry.name name = true ∧ ∃ before after, entries = before ++ entry :: after ∧
    ∀ other ∈ before, eqIgnoreCase other.name name = false

/-- No two entries of a list have the same name in any letter case. -/
def Distinct (entries : List ConfigEntry) : Prop :=
  (entries.map fun entry => lower entry.name).Nodup

instance (entries : List ConfigEntry) : Decidable (Distinct entries) :=
  inferInstanceAs (Decidable (List.Nodup _))

/-- Two entries that differ in the letter case of the name at most. -/
def Recased (entry entry' : ConfigEntry) : Prop :=
  eqIgnoreCase entry.name entry'.name = true ∧ entry.value = entry'.value

/-- The options of feeds are spelled as they are looked up. -/
def Spelled (entries : List ConfigEntry) : Prop :=
  ∀ entry ∈ entries, ∀ id, ∀ key ∈ FeedDefinition.keys,
    eqIgnoreCase entry.name (FeedDefinition.optionName id key) = true →
      entry.name = FeedDefinition.optionName id key

end ConfigEntry

namespace Options

/-- Two stores with the same saved feeds, which are found by the same search. -/
structure SameFeeds (o o' : Options) : Prop where
  search : FeedDefinition.search? o = FeedDefinition.search? o'
  all : FeedDefinition.all o = FeedDefinition.all o'
  menu : FeedDefinition.menu o = FeedDefinition.menu o'

/-- Two stores that answer alike for every name. -/
structure SameAnswers (o o' : Options) : Prop where
  value : ∀ name, o.value? name = o'.value? name
  feeds : SameFeeds o o'

/-- The stores that come to the same as a list of entries. -/
structure Agree (entries : List ConfigEntry) : Prop where
  permuted : ∀ entries', entries'.Perm entries →
    SameAnswers (ofEntries entries') (ofEntries entries)
  recased : ∀ entries', List.Forall₂ ConfigEntry.Recased entries' entries →
    SameAnswers (ofEntries entries') (ofEntries entries)
  shadowed : ∀ later, (∀ entry ∈ later, ConfigEntry.Named entries entry.name) →
    SameAnswers (ofEntries (entries ++ later)) (ofEntries entries)
  stored : ConfigEntry.Spelled entries → ∀ store : List (String × String),
    store.Perm (entries.map fun entry => (entry.name, entry.value)) →
      SameFeeds (ofStore store) (ofEntries entries)

end Options

/-! ## Names of options -/

theorem toLower_of_isDigit {c : Char} (h : c.isDigit = true) : c.toLower = c := by
  obtain ⟨-, hhigh⟩ := Char.isDigit_iff_toNat.mp h
  have hupper : ¬ ('A'.val ≤ c.val ∧ c.val ≤ 'Z'.val) := by
    rintro ⟨hlow, -⟩
    have hle : 'A'.toNat ≤ c.toNat := UInt32.le_iff_toNat_le.mp hlow
    simp only [Char.reduceToNat] at hhigh hle
    omega
  exact dif_neg hupper

namespace FeedDefinition

theorem lower_optionName (id : UInt32) (key : String) : lower (optionName id key) =
    String.ofList ("feed".toList ++ (Nat.toDigits 10 id.toNat ++ '.' :: (lower key).toList)) := by
  have hsame : ∀ c ∈ Nat.toDigits 10 id.toNat, c.toLower = c := fun c hc =>
    toLower_of_isDigit (Nat.isDigit_of_mem_toDigits (by decide) (by decide) hc)
  have hdigits : (Nat.toDigits 10 id.toNat).map Char.toLower = Nat.toDigits 10 id.toNat := by
    rw [List.map_congr_left hsame, List.map_id']
  simp [optionName, lower, hdigits]

theorem takeWhile_toDigits (n : Nat) (rest : List Char) :
    (Nat.toDigits 10 n ++ '.' :: rest).takeWhile Char.isDigit = Nat.toDigits 10 n := by
  have hall : ∀ c ∈ Nat.toDigits 10 n, c.isDigit = true := fun c hc =>
    Nat.isDigit_of_mem_toDigits (by decide) (by decide) hc
  rw [List.takeWhile_append_of_pos hall]
  simp

/-- The name of an option tells the number of its feed. -/
theorem eqIgnoreCase_optionName {i j : UInt32} {key key' : String} :
    eqIgnoreCase (optionName i key) (optionName j key') = true ↔
      i = j ∧ eqIgnoreCase key key' = true := by
  rw [eqIgnoreCase_iff, eqIgnoreCase_iff, lower_optionName, lower_optionName, String.ofList_inj,
    List.append_cancel_left_eq]
  constructor
  · intro h
    have hdigits : Nat.toDigits 10 i.toNat = Nat.toDigits 10 j.toNat := by
      rw [← takeWhile_toDigits i.toNat (lower key).toList, h, takeWhile_toDigits]
    rw [hdigits, List.append_cancel_left_eq] at h
    exact ⟨UInt32.toNat_inj.mp (Number.toDigits_inj.mp hdigits),
      String.toList_inj.mp (List.cons.inj h).2⟩
  · rintro ⟨rfl, hkey⟩
    rw [hkey]

end FeedDefinition

namespace Options

/-! ## Entries -/

section
variable {entries entries' later : List ConfigEntry} {name value : String}

open ConfigEntry

theorem value?_eq_some_iff : (ofEntries entries).value? name = some value ↔
    ∃ entry, FirstNamed entries name entry ∧ entry.value = value := by
  simp only [ofEntries, Option.map_eq_some_iff, List.find?_eq_some_iff_append, FirstNamed,
    Bool.not_eq_true']

theorem value?_eq_none_iff : (ofEntries entries).value? name = none ↔ ¬ Named entries name := by
  simp only [ofEntries, Option.map_eq_none_iff, List.find?_eq_none, Named, not_exists, not_and]

/-- Among entries with different names it makes no difference which is the first. -/
theorem value?_eq_some_iff_mem (h : Distinct entries) :
    (ofEntries entries).value? name = some value ↔
      ∃ entry ∈ entries, eqIgnoreCase entry.name name = true ∧ entry.value = value := by
  constructor
  · intro hvalue
    obtain ⟨entry, ⟨hname, before, after, rfl, -⟩, hentry⟩ := value?_eq_some_iff.mp hvalue
    exact ⟨entry, by simp, hname, hentry⟩
  · rintro ⟨entry, hmem, hname, rfl⟩
    cases hfound : (ofEntries entries).value? name with
    | none => exact absurd ⟨entry, hmem, hname⟩ (value?_eq_none_iff.mp hfound)
    | some value =>
      obtain ⟨first, ⟨hfirst, before, after, rfl, -⟩, rfl⟩ := value?_eq_some_iff.mp hfound
      have hsame : lower first.name = lower entry.name :=
        (eqIgnoreCase_iff.mp hfirst).trans (eqIgnoreCase_iff.mp hname).symm
      have hone : first = entry := List.inj_on_of_nodup_map h (by simp) hmem hsame
      rw [hone]

theorem value?_perm (h : Distinct entries) (hp : entries'.Perm entries) :
    (ofEntries entries').value? name = (ofEntries entries).value? name := by
  have h' : Distinct entries' := (hp.map _).nodup_iff.mpr h
  apply Option.ext
  intro value
  simp only [value?_eq_some_iff_mem h, value?_eq_some_iff_mem h', hp.mem_iff]

theorem value?_recased (h : List.Forall₂ Recased entries' entries) :
    (ofEntries entries').value? name = (ofEntries entries).value? name := by
  induction h with
  | nil => rfl
  | @cons entry' entry rest' rest hentry _ ih =>
    obtain ⟨hname, hvalue⟩ := hentry
    have hsame : eqIgnoreCase entry'.name name = eqIgnoreCase entry.name name := by
      rw [Bool.eq_iff_iff, eqIgnoreCase_iff, eqIgnoreCase_iff, eqIgnoreCase_iff.mp hname]
    simp only [ofEntries, List.find?_cons, hsame] at ih ⊢
    cases eqIgnoreCase entry.name name with
    | true => exact congrArg some hvalue
    | false => exact ih

theorem value?_append (h : ∀ entry ∈ later, Named entries entry.name) :
    (ofEntries (entries ++ later)).value? name = (ofEntries entries).value? name := by
  simp only [ofEntries, List.find?_append]
  cases hfound : entries.find? fun entry => eqIgnoreCase entry.name name with
  | some entry => rfl
  | none =>
    have hlater : later.find? (fun entry => eqIgnoreCase entry.name name) = none := by
      rw [List.find?_eq_none] at hfound ⊢
      intro entry hmem hname
      obtain ⟨first, hfirst, hsame⟩ := h entry hmem
      refine hfound first hfirst (eqIgnoreCase_iff.mpr ?_)
      exact (eqIgnoreCase_iff.mp hsame).trans (eqIgnoreCase_iff.mp hname)
    rw [hlater]
    rfl

end

/-! ## Stores -/

/-- A store holds a value under a name exactly if it has the pair of them. -/
theorem lookup_eq_some_iff_mem {store : List (String × String)} {name value : String}
    (h : (store.map Prod.fst).Nodup) : store.lookup name = some value ↔ (name, value) ∈ store := by
  induction store with
  | nil => simp
  | cons pair rest ih =>
    obtain ⟨held, heldValue⟩ := pair
    obtain ⟨hnew, hrest⟩ := List.nodup_cons.mp h
    by_cases hname : name = held
    · subst hname
      have hothers : (name, value) ∉ rest := fun hmem => hnew (List.mem_map.mpr ⟨_, hmem, rfl⟩)
      simp [hothers, eq_comm]
    · have hkept : (name == held) = false := beq_eq_false_iff_ne.mpr hname
      simp [List.lookup_cons, hkept, hname, ih hrest]

section
variable {entries : List ConfigEntry}

open ConfigEntry

theorem nodup_names (h : Distinct entries) {store : List (String × String)}
    (hp : store.Perm (entries.map fun entry => (entry.name, entry.value))) :
    (store.map Prod.fst).Nodup := by
  rw [(hp.map Prod.fst).nodup_iff, List.map_map]
  have hlower : ((entries.map ConfigEntry.name).map lower).Nodup := by
    rw [List.map_map]
    exact h
  exact hlower.of_map lower

/-- A name that no entry spells in another way is answered for alike by the store and the list. -/
theorem value?_ofStore (h : Distinct entries) {store : List (String × String)}
    (hp : store.Perm (entries.map fun entry => (entry.name, entry.value))) {name : String}
    (hspelled : ∀ entry ∈ entries, eqIgnoreCase entry.name name = true → entry.name = name) :
    (ofStore store).value? name = (ofEntries entries).value? name := by
  apply Option.ext
  intro value
  have hstore : (ofStore store).value? name = some value ↔ (name, value) ∈ store :=
    lookup_eq_some_iff_mem (nodup_names h hp)
  rw [hstore, hp.mem_iff, value?_eq_some_iff_mem h, List.mem_map]
  constructor
  · rintro ⟨entry, hmem, hpair⟩
    obtain ⟨rfl, rfl⟩ := Prod.mk.inj hpair
    exact ⟨entry, hmem, eqIgnoreCase_refl _, rfl⟩
  · rintro ⟨entry, hmem, hname, rfl⟩
    exact ⟨entry, hmem, congrArg (·, entry.value) (hspelled entry hmem hname)⟩

end

/-! ## Saved feeds -/

section
variable {o o' : Options}

/-- The saved feeds depend on their options alone. -/
theorem SameFeeds.of_value (h : ∀ id, ∀ key ∈ FeedDefinition.keys,
    o.value? (FeedDefinition.optionName id key) = o'.value? (FeedDefinition.optionName id key)) :
    SameFeeds o o' := by
  have hread : FeedDefinition.read? o = FeedDefinition.read? o' := by
    funext id
    have hkeys := h id
    simp only [FeedDefinition.keys, List.forall_mem_cons] at hkeys
    obtain ⟨hurl, hname, hcategory, hpriority, -⟩ := hkeys
    simp only [FeedDefinition.read?, hurl, hname, hcategory, hpriority]
  have hsearch : FeedDefinition.search? o = FeedDefinition.search? o' := by
    simp only [FeedDefinition.search?, hread]
  have hall : FeedDefinition.all o = FeedDefinition.all o' := by
    simp only [FeedDefinition.all, hsearch]
  constructor
  case search => exact hsearch
  case all => exact hall
  case menu => simp only [FeedDefinition.menu, hall]

theorem SameAnswers.of_value (h : ∀ name, o.value? name = o'.value? name) : SameAnswers o o' :=
  ⟨h, .of_value fun _ _ _ => h _⟩

end

/-- A list of entries with different names may be put into another order, written in other letters
or followed by repetitions of its names, and it may be kept in a store of exact names if the options
of feeds are spelled exactly: the saved feeds stay the same. -/
theorem stores_agree {entries : List ConfigEntry} (h : ConfigEntry.Distinct entries) :
    Agree entries := by
  constructor
  case permuted =>
    intro entries' hp
    exact .of_value fun _ => value?_perm h hp
  case recased =>
    intro entries' hrecased
    exact .of_value fun _ => value?_recased hrecased
  case shadowed =>
    intro later hlater
    exact .of_value fun _ => value?_append hlater
  case stored =>
    intro hspelled store hp
    refine .of_value fun id key hkey => value?_ofStore h hp ?_
    exact fun entry hmem => hspelled entry hmem id key hkey

def twoFeeds : List ConfigEntry :=
  [⟨"Feed1.URL", "https://a.example.com/rss"⟩, ⟨"Feed1.Name", "Alpha"⟩,
    ⟨"Feed2.URL", "https://b.example.com/rss"⟩]

theorem spelled_twoFeeds : ConfigEntry.Spelled twoFeeds := by
  have hkeys : ∀ key ∈ FeedDefinition.keys, ∀ key' ∈ FeedDefinition.keys,
      eqIgnoreCase key key' = true → key = key' := by decide
  have hnames : ∀ entry ∈ twoFeeds, ∃ id, ∃ key ∈ FeedDefinition.keys,
      entry.name = FeedDefinition.optionName id key := by
    simp only [twoFeeds, List.forall_mem_cons]
    exact ⟨⟨1, "URL", by decide, rfl⟩, ⟨1, "Name", by decide, rfl⟩, ⟨2, "URL", by decide, rfl⟩,
      List.forall_mem_nil _⟩
  intro entry hmem id key hkey hsame
  obtain ⟨id', key', hkey', hname⟩ := hnames entry hmem
  rw [hname] at hsame ⊢
  obtain ⟨rfl, hsameKey⟩ := FeedDefinition.eqIgnoreCase_optionName.mp hsame
  rw [hkeys key' hkey' key hkey hsameKey]

/-- The feeds are the same in a store that gives the options in another order. -/
theorem twoFeeds_stored : ConfigEntry.Distinct twoFeeds ∧ Agree twoFeeds ∧
    SameFeeds (ofStore (twoFeeds.map fun entry => (entry.name, entry.value)).reverse)
      (ofEntries twoFeeds) := by
  have h : ConfigEntry.Distinct twoFeeds := by decide
  have hagree : Agree twoFeeds := stores_agree h
  exact ⟨h, hagree, hagree.stored spelled_twoFeeds _ (List.reverse_perm _)⟩

end Options

end FeedDesk
