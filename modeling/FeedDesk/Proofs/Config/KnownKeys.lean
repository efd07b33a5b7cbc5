import FeedDesk.Console.Run
import FeedDesk.Proofs.Config.Settings
import FeedDesk.Proofs.Text.Extension
import Mathlib

/-!
# The keys that matter

Settings are made of the known keys of a document, and the other keys are warned about: they are
those that make no difference to the settings of any document. A document that is too large is not
looked at.
-/
namespace FeedDesk

open Toml

/-- A text that is read as a document and holds a table. -/
structure IsDocument (text : String) (t : Table) : Prop where
  not_blank : Text.isAllBlank text = false
  size_le : text.utf8ByteSize ≤ ConfigError.sizeLimit
  parsed : Toml.parse? text = some t

def settingsOf (text : String) : Except ConfigError Config :=
  (LoadedConfig.ofFile (.found text.toUTF8)).map LoadedConfig.config

/-- A key that makes no difference to the settings of a document, whatever its value and whether or
not the document has it. -/
def IsInert (key : String) : Prop :=
  ∀ a b s t, IsDocument a s → IsDocument b t → s.AgreeOn (· ≠ key) t → settingsOf a = settingsOf b

/-! ## Files -/

theorem ofFile_text {text : String} (h : text.utf8ByteSize ≤ ConfigError.sizeLimit) :
    LoadedConfig.ofFile (.found text.toUTF8) = LoadedConfig.ofText text := by
  have hsize : ¬ ConfigError.sizeLimit < text.toUTF8.size := Nat.not_lt.mpr h
  simp only [LoadedConfig.ofFile, if_neg hsize, Text.fromUTF8?_toUTF8]

theorem ofFile_large {text : String} (h : ConfigError.sizeLimit < text.utf8ByteSize) :
    LoadedConfig.ofFile (.found text.toUTF8) = .error (.tooLarge text.utf8ByteSize) := by
  have hsize : ConfigError.sizeLimit < text.toUTF8.size := h
  simp only [LoadedConfig.ofFile, if_pos hsize]
  rfl

namespace IsDocument

variable {a b : String} {s t : Table}

theorem ofFile_eq (h : IsDocument a s) :
    LoadedConfig.ofFile (.found a.toUTF8) =
      (Config.ofTable? s).elim (.error .malformed) fun config =>
        .ok ⟨config, Config.unknownKeys s⟩ := by
  simp only [ofFile_text h.size_le, LoadedConfig.ofText, h.not_blank, h.parsed, Bool.false_eq_true,
    if_false]
  cases Config.ofTable? s with
  | none => rfl
  | some config => rfl

theorem warnedKeys_eq (h : IsDocument a s) : LoadedConfig.warnedKeys a = Config.unknownKeys s := by
  simp only [LoadedConfig.warnedKeys, h.not_blank, h.parsed, Bool.false_eq_true, if_false]

/-- The settings of a document are those that follow its table. -/
theorem settingsOf_eq_ok_iff (h : IsDocument a s) {c : Config} :
    settingsOf a = .ok c ↔ c.Follows s := by
  rw [← Config.ofTable?_eq_some_iff (inRange_of_parse? h.parsed), settingsOf, h.ofFile_eq]
  cases Config.ofTable? s with
  | none => simp [Except.map]
  | some config => simp [Except.map]

/-- A document gives settings exactly if its table is well typed. -/
theorem settingsOf_cases (h : IsDocument a s) :
    (s.WellTyped ∧ ∃ c, settingsOf a = .ok c) ∨
      ¬ s.WellTyped ∧ settingsOf a = .error .malformed := by
  rw [← Config.exists_follows_iff]
  simp only [← h.settingsOf_eq_ok_iff, settingsOf, h.ofFile_eq]
  cases Config.ofTable? s with
  | none => exact .inr ⟨fun ⟨_, hc⟩ => (nomatch hc), rfl⟩
  | some config => exact .inl ⟨⟨config, rfl⟩, config, rfl⟩

theorem settingsOf_congr (ha : IsDocument a s) (hb : IsDocument b t)
    (h : s.AgreeOn (· ∈ Config.knownKeys) t) : settingsOf a = settingsOf b := by
  rw [settingsOf, settingsOf, ha.ofFile_eq, hb.ofFile_eq, Config.ofTable?_congr h]
  cases Config.ofTable? t <;> rfl

end IsDocument

/-! ## Keys that are warned about -/

theorem mem_unknownKeys {t : Table} {key : String} :
    key ∈ Config.unknownKeys t ↔ key ∈ t.map Prod.fst ∧ key ∉ Config.knownKeys := by
  rw [Config.unknownKeys, List.mem_mergeSort, List.mem_filter]
  simp

/-- No known key is true in a table that is well typed. -/
theorem not_wellTyped_of_true {t : Table} {key : String} (hkey : key ∈ Config.knownKeys)
    (h : t.lookup key = some (.boolean true)) : ¬ t.WellTyped := by
  intro ht
  have hsplit : key ∈ ["server_url", "username", "password"] ∨
      key ∈ ["request_timeout_secs", "page_size", "transmit_delay_ms"] ∨
        key = "time_zone_correction_hours" := by
    simpa [Config.knownKeys, or_assoc] using hkey
  rcases hsplit with htext | hcount | rfl
  · obtain ⟨s, hs⟩ := ht.text key htext _ h
    simp [Value.IsText] at hs
  · obtain ⟨n, hn⟩ := ht.count key hcount _ h
    cases hn
  · obtain ⟨n, hn⟩ := ht.hours _ h
    cases hn

/-! ### Documents of one line -/

def commentOf (length : Nat) : String := String.ofList ('#' :: List.replicate length ' ')

theorem parse?_commentOf (length : Nat) : Toml.parse? (commentOf length) = some [] :=
  parse?_comment fun _ hc => (List.eq_of_mem_replicate hc) ▸ rfl

theorem not_blank_commentOf (length : Nat) : Text.isAllBlank (commentOf length) = false := by
  have hsign : Text.isBlank '#' = false := by decide
  simp [Text.isAllBlank, commentOf, hsign]

theorem utf8ByteSize_commentOf (length : Nat) : (commentOf length).utf8ByteSize = length + 1 := by
  have hblanks : Text.utf8Length (List.replicate length ' ') = length := by
    induction length with
    | zero => rfl
    | succ length ih =>
      have hblank : ' '.utf8Size = 1 := by decide
      rw [List.replicate_succ, Text.utf8Length_cons, ih, hblank, Nat.add_comm]
  have hsign : '#'.utf8Size = 1 := by decide
  rw [← Text.utf8Length_toList, commentOf, String.toList_ofList, Text.utf8Length_cons, hblanks,
    hsign, Nat.add_comm]

theorem isDocument_commentOf {length : Nat} (h : length + 1 ≤ ConfigError.sizeLimit) :
    IsDocument (commentOf length) [] :=
  ⟨not_blank_commentOf length, utf8ByteSize_commentOf length ▸ h, parse?_commentOf length⟩

/-- A document without keys leaves all settings at their defaults. -/
theorem IsDocument.settingsOf_nil {text : String} (h : IsDocument text []) :
    settingsOf text = .ok {} := by
  rw [h.settingsOf_eq_ok_iff]
  exact ⟨.inl ⟨rfl, rfl⟩, .inl ⟨rfl, rfl⟩, .inl ⟨rfl, rfl⟩, .inl ⟨rfl, rfl⟩, .inl ⟨rfl, rfl⟩,
    .inl ⟨rfl, rfl⟩, .inl ⟨rfl, rfl⟩⟩

/-- A document that gives a key the value true. -/
theorem isDocument_true {key : String} (h : IsBareKey key.toList)
    (hsize : (key ++ "=true").utf8ByteSize ≤ ConfigError.sizeLimit) :
    IsDocument (key ++ "=true") [(key, .boolean true)] := by
  have hsign : Text.isBlank '=' = false := by decide
  refine ⟨by simp [Text.isAllBlank, hsign], hsize, ?_⟩
  have htext : key ++ "=true" = String.ofList (key.toList ++ "=true".toList) := by
    rw [← String.toList_append, String.ofList_toList]
  rw [htext, h.parse?_true, String.ofList_toList]

theorem isDocument_known {key : String} (h : key ∈ Config.knownKeys) :
    IsDocument (key ++ "=true") [(key, .boolean true)] := by
  have hall : Config.knownKeys.all (fun key => !key.toList.isEmpty && key.toList.all isKeyChar &&
      decide ((key ++ "=true").utf8ByteSize ≤ ConfigError.sizeLimit)) = true := by
    decide
  have hkey := List.all_eq_true.mp hall key h
  simp only [Bool.and_eq_true, Bool.not_eq_true', List.isEmpty_eq_false_iff, List.all_eq_true,
    decide_eq_true_eq] at hkey
  exact isDocument_true ⟨hkey.1.1, hkey.1.2⟩ hkey.2

/-- Exactly the keys without a meaning make no difference. -/
theorem isInert_iff {key : String} : IsInert key ↔ key ∉ Config.knownKeys := by
  constructor
  · intro hinert hkey
    have hagree : Table.AgreeOn (· ≠ key) [(key, .boolean true)] [] := by
      intro other hother
      simp [List.lookup_cons, beq_eq_false_iff_ne.mpr hother]
    have hcomment : IsDocument (commentOf 0) [] := isDocument_commentOf (by decide)
    have hsame := hinert _ _ _ _ (isDocument_known hkey) hcomment hagree
    rw [hcomment.settingsOf_nil, (isDocument_known hkey).settingsOf_eq_ok_iff] at hsame
    exact not_wellTyped_of_true hkey List.lookup_cons_self
      (Config.exists_follows_iff.mp ⟨_, hsame⟩)
  · intro hunknown a b s t ha hb hagree
    exact ha.settingsOf_congr hb fun other hother =>
      hagree other fun heq => hunknown (heq ▸ hother)

def Toml.Table.spoiled (t : Table) (key : String) : Table :=
  (key, .boolean true) :: t.filter (·.1 ≠ key)

theorem agreeOn_spoiled (t : Table) (key : String) :
    t.AgreeOn (· ≠ key) (t.spoiled key) := by
  intro other hother
  have hkept : (t.filter (·.1 ≠ key)).lookup other = t.lookup other := by
    induction t with
    | nil => rfl
    | cons entry t ih =>
      obtain ⟨name, v⟩ := entry
      rw [List.filter_cons]
      split
      · rw [List.lookup_cons, List.lookup_cons, ih]
      · next hname =>
        obtain rfl : name = key := by simpa using hname
        rw [ih, List.lookup_cons, beq_eq_false_iff_ne.mpr hother]
  rw [Table.spoiled, List.lookup_cons, beq_eq_false_iff_ne.mpr hother, hkept]

theorem inRange_spoiled {t : Table} (h : t.InRange) (key : String) : (t.spoiled key).InRange := by
  refine List.forall_mem_cons.mpr ⟨?_, fun entry hentry => h entry (List.mem_of_mem_filter hentry)⟩
  rintro i ⟨⟩

/-- In a document that gives settings, the keys that are warned about are those on which these
settings do not depend. -/
theorem IsDocument.mem_warnedKeys_iff {a : String} {s : Table} (h : IsDocument a s) {c : Config}
    (hc : settingsOf a = .ok c) {key : String} (hkey : key ∈ s.map Prod.fst) :
    key ∈ LoadedConfig.warnedKeys a ↔
      ∀ t, s.AgreeOn (· ≠ key) t → Config.ofTable? t = some c := by
  have hrange : s.InRange := inRange_of_parse? h.parsed
  have hloaded : Config.ofTable? s = some c :=
    (Config.ofTable?_eq_some_iff hrange).mpr (h.settingsOf_eq_ok_iff.mp hc)
  rw [h.warnedKeys_eq, mem_unknownKeys]
  constructor
  · rintro ⟨-, hunknown⟩ t hagree
    rw [← hloaded]
    exact (Config.ofTable?_congr fun other hother =>
      hagree other fun heq => hunknown (heq ▸ hother)).symm
  · refine fun hinert => ⟨hkey, fun hknown => ?_⟩
    have hspoiled : c.Follows (s.spoiled key) :=
      (Config.ofTable?_eq_some_iff (inRange_spoiled hrange key)).mp
        (hinert _ (agreeOn_spoiled s key))
    exact not_wellTyped_of_true hknown List.lookup_cons_self
      (Config.exists_follows_iff.mp ⟨c, hspoiled⟩)

/-! ## Passwords -/

namespace Console

/-- A password in the environment replaces that of the settings, and nothing else, unless it is
empty. -/
theorem settingsFor_password (env : Environment) (invocation : Invocation) (secret : String) :
    settingsFor { env with password := some secret } invocation =
      (settingsFor { env with password := none } invocation).map fun c =>
        if secret = "" then c else { c with password := some secret } := by
  unfold settingsFor
  change (configPath env invocation.config >>= _) =
    Except.map _ (configPath env invocation.config >>= _)
  cases configPath env invocation.config with
  | error failure => rfl
  | ok path =>
    simp only [bind, Except.bind]
    cases LoadedConfig.ofFile (env.file path) with
    | error e => rfl
    | ok loaded =>
      simp only [Config.withPassword]
      split <;> rfl

end Console

/-! ## Documents and their settings -/

/-- How the settings of a document `a` with the table `s` come about. -/
structure ReadByKnownKeys (a : String) (s : Table) : Prop where
  settings_eq : ∀ b t, IsDocument b t → s.AgreeOn (· ∈ Config.knownKeys) t →
    settingsOf a = settingsOf b
  follows : ∀ c, settingsOf a = .ok c ↔ c.Follows s
  loads : s.WellTyped → ∃ c, settingsOf a = .ok c
  malformed : ¬ s.WellTyped → settingsOf a = .error .malformed
  warned : ∀ key, key ∈ LoadedConfig.warnedKeys a ↔ key ∈ s.map Prod.fst ∧ IsInert key
  warned_of_loaded : ∀ c, settingsOf a = .ok c → ∀ key ∈ s.map Prod.fst,
    (key ∈ LoadedConfig.warnedKeys a ↔
      ∀ t, s.AgreeOn (· ≠ key) t → Config.ofTable? t = some c)
  unknownKeys_eq : ∀ loaded, LoadedConfig.ofFile (.found a.toUTF8) = .ok loaded →
    loaded.unknownKeys = LoadedConfig.warnedKeys a
  password : ∀ (env : Console.Environment) (invocation : Console.Invocation) (secret : String),
    Console.settingsFor { env with password := some secret } invocation =
      (Console.settingsFor { env with password := none } invocation).map fun c =>
        if secret = "" then c else { c with password := some secret }

/-- The settings of every document that is not too large are made of its known keys, each of its
own; the keys that are warned about are those that make no difference; and a password in the
environment replaces that of the document. -/
theorem readByKnownKeys {a : String} {s : Table} (h : IsDocument a s) : ReadByKnownKeys a s where
  settings_eq _ _ hb hagree := h.settingsOf_congr hb hagree
  follows _ := h.settingsOf_eq_ok_iff
  loads ht := h.settingsOf_cases.elim (·.2) fun hcase => absurd ht hcase.1
  malformed ht := h.settingsOf_cases.elim (fun hcase => absurd hcase.1 ht) (·.2)
  warned key := by rw [h.warnedKeys_eq, mem_unknownKeys, isInert_iff]
  warned_of_loaded _ hc _ hkey := h.mem_warnedKeys_iff hc hkey
  unknownKeys_eq loaded hloaded := by
    rw [h.ofFile_eq] at hloaded
    revert hloaded
    cases Config.ofTable? s with
    | none => rintro ⟨⟩
    | some config =>
      rintro ⟨⟩
      exact h.warnedKeys_eq.symm
  password := Console.settingsFor_password

def themedDocument : String := "username=\"anna\"\ntheme=true"

theorem isDocument_themed :
    IsDocument themedDocument [("username", .text "anna"), ("theme", .boolean true)] :=
  ⟨by decide, by decide, by cbv⟩

/-- The user name is taken over, all else is left at its default, and the theme is warned about. -/
theorem readByKnownKeys_themed :
    IsDocument themedDocument [("username", .text "anna"), ("theme", .boolean true)] ∧
      settingsOf themedDocument = .ok { username := some "anna" } ∧
      "theme" ∈ LoadedConfig.warnedKeys themedDocument ∧
      "username" ∉ LoadedConfig.warnedKeys themedDocument := by
  have hread := readByKnownKeys isDocument_themed
  refine ⟨isDocument_themed, (hread.follows _).mpr ?_, ?_, ?_⟩
  · have husername : Value.IsText (.text "anna") "anna" := .inl rfl
    exact ⟨.inl ⟨rfl, rfl⟩, .inr ⟨_, rfl, "anna", husername, rfl⟩, .inl ⟨rfl, rfl⟩,
      .inl ⟨rfl, rfl⟩, .inl ⟨rfl, rfl⟩, .inl ⟨rfl, rfl⟩, .inl ⟨rfl, rfl⟩⟩
  · exact (hread.warned "theme").mpr ⟨by decide, isInert_iff.mpr (by decide)⟩
  · intro hwarned
    exact isInert_iff.mp ((hread.warned "username").mp hwarned).2 (by decide)

/-- Two documents without any key that are not read alike, because one is too large. -/
theorem large_comment_refused :
    Text.isAllBlank (commentOf 0) = false ∧ Text.isAllBlank (commentOf 1048576) = false ∧
      Toml.parse? (commentOf 0) = some [] ∧ Toml.parse? (commentOf 1048576) = some [] ∧
      settingsOf (commentOf 0) = .ok {} ∧
      settingsOf (commentOf 1048576) = .error (.tooLarge 1048577) := by
  have hsize : (commentOf 1048576).utf8ByteSize = 1048577 := utf8ByteSize_commentOf 1048576
  have hlarge : ConfigError.sizeLimit < (commentOf 1048576).utf8ByteSize := by
    rw [hsize]
    decide
  have hsmall : IsDocument (commentOf 0) [] := isDocument_commentOf (by decide)
  refine ⟨hsmall.not_blank, not_blank_commentOf _, hsmall.parsed, parse?_commentOf _,
    hsmall.settingsOf_nil, ?_⟩
  rw [settingsOf, ofFile_large hlarge, hsize]
  rfl

end FeedDesk
