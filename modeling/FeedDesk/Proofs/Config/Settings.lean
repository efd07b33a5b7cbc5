import FeedDesk.Config
import FeedDesk.Proofs.Toml.Documents

/-!
# Settings and the table they are taken from

Every setting has a key of its own and depends on the value of this key alone: it is the value
where there is one, and a default where there is none. A value of another type, or out of the range
of its setting, gives no settings at all.
-/
namespace FeedDesk

open Toml

namespace Toml

/-- The text that a value gives: its content, or the way a point in time is written. -/
def Value.IsText (v : Value) (s : String) : Prop := v = .text s ∨ ∃ m, v = .moment m ∧ m.text = s

def Value.IsCount (v : Value) (n : UInt64) : Prop := v = .integer n.toNat

def Value.IsHours (v : Value) (n : Int32) : Prop := v = .integer n.toInt

/-- A value without what lists and tables hold, and without how they came to be. -/
def Value.outline : Value → Value
  | .array _ | .tables _ => .array []
  | .table .. => .table .header []
  | v => v

namespace Table

/-- Two tables have the same keys among some, with the same values up to what lists and tables
hold. -/
def AgreeOn (keys : String → Prop) (s t : Table) : Prop :=
  ∀ key, keys key → (s.lookup key).map Value.outline = (t.lookup key).map Value.outline

/-- What a table gives for a key: a default if the key is missing, and else what its value is. -/
def Gives {α : Type} (t : Table) (key : String) (default : α) (is : Value → α → Prop) (x : α) :
    Prop :=
  (t.lookup key = none ∧ x = default) ∨ ∃ v, t.lookup key = some v ∧ is v x

/-- A table in which the keys of settings have values of the types and in the ranges of these. -/
structure WellTyped (t : Table) : Prop where
  text : ∀ key ∈ ["server_url", "username", "password"], ∀ v, t.lookup key = some v →
    ∃ s, v.IsText s
  count : ∀ key ∈ ["request_timeout_secs", "page_size", "transmit_delay_ms"], ∀ v,
    t.lookup key = some v → ∃ n, v.IsCount n
  hours : ∀ v, t.lookup "time_zone_correction_hours" = some v → ∃ n, v.IsHours n

end Table

end Toml

/-- Settings that follow a table, each its own key. -/
structure Config.Follows (c : Config) (t : Table) : Prop where
  serverUrl : t.Gives "server_url" "http://127.0.0.1:6789" Value.IsText c.serverUrl
  username : t.Gives "username" none (fun v name => ∃ s, v.IsText s ∧ some s = name) c.username
  password : t.Gives "password" none (fun v secret => ∃ s, v.IsText s ∧ some s = secret) c.password
  requestTimeout : t.Gives "request_timeout_secs" 30 Value.IsCount c.requestTimeout
  pageSize : t.Gives "page_size" 100 Value.IsCount c.pageSize
  transmitDelay : t.Gives "transmit_delay_ms" 500 Value.IsCount c.transmitDelay
  zone : t.Gives "time_zone_correction_hours" 0 Value.IsHours c.zone

/-! ## Values -/

namespace Toml.Value

variable {v : Value}

theorem asText?_eq_some_iff {s : String} : v.asText? = some s ↔ v.IsText s := by
  cases v <;> simp [asText?, IsText]

theorem asUInt64?_eq_some_iff (hv : v.InRange) {n : UInt64} :
    v.asUInt64? = some n ↔ v.IsCount n := by
  cases v with
  | integer i =>
    obtain ⟨-, hhigh⟩ := hv i rfl
    simp only [asUInt64?, IsCount, Value.integer.injEq]
    constructor
    · intro h
      split at h
      · next hlow =>
        obtain rfl := Option.some.inj h
        have hsize : i.toNat < 18446744073709551616 := by omega
        rw [UInt64.toNat_ofNat_of_lt' hsize, Int.toNat_of_nonneg hlow]
      · cases h
    · rintro rfl
      simp
  | _ => simp [asUInt64?, IsCount]

theorem asInt32?_eq_some_iff {n : Int32} : v.asInt32? = some n ↔ v.IsHours n := by
  cases v with
  | integer i =>
    simp only [asInt32?, IsHours, Value.integer.injEq]
    constructor
    · intro h
      split at h
      · next hrange =>
        obtain rfl := Option.some.inj h
        exact (Int32.toInt_ofInt_of_le hrange.1 hrange.2).symm
      · cases h
    · rintro rfl
      have hrange : -Int.pow 2 31 ≤ n.toInt ∧ n.toInt < Int.pow 2 31 := ⟨n.le_toInt, n.toInt_lt⟩
      rw [if_pos hrange, Int32.ofInt_toInt]
  | _ => simp [asInt32?, IsHours]

theorem asText?_outline (v : Value) : v.outline.asText? = v.asText? := by
  cases v <;> rfl

theorem asUInt64?_outline (v : Value) : v.outline.asUInt64? = v.asUInt64? := by
  cases v <;> rfl

theorem asInt32?_outline (v : Value) : v.outline.asInt32? = v.asInt32? := by
  cases v <;> rfl

end Toml.Value

/-! ## Settings -/

namespace Config

variable {t : Table}

theorem setting_eq_some_iff {α : Type} {key : String} {default : α} {read : Value → Option α}
    {is : Value → α → Prop} (hread : ∀ v x, t.lookup key = some v → (read v = some x ↔ is v x))
    {x : α} : setting t key default read = some x ↔ t.Gives key default is x := by
  unfold setting Table.Gives
  cases hv : t.lookup key with
  | none => simp [eq_comm]
  | some v => simp [hread v x hv]

theorem setting_congr {α : Type} {s t : Table} {key : String} {default : α}
    {read : Value → Option α} (hread : ∀ v, read v.outline = read v)
    (h : (s.lookup key).map Value.outline = (t.lookup key).map Value.outline) :
    setting s key default read = setting t key default read := by
  have hsetting (t : Table) : setting t key default read =
      ((t.lookup key).map Value.outline).elim (some default) read := by
    unfold setting
    cases t.lookup key with
    | none => rfl
    | some v => exact (hread v).symm
  rw [hsetting, hsetting, h]

theorem ofTable?_eq_some_iff (ht : t.InRange) {c : Config} :
    ofTable? t = some c ↔ c.Follows t := by
  have htext {key : String} {default x : String} :
      setting t key default Value.asText? = some x ↔ t.Gives key default Value.IsText x :=
    setting_eq_some_iff fun _ _ _ => Value.asText?_eq_some_iff
  have hoption {key : String} {default x : Option String} :
      (setting t key default fun v => v.asText?.map some) = some x ↔
        t.Gives key default (fun v x => ∃ s, v.IsText s ∧ some s = x) x :=
    setting_eq_some_iff fun _ _ _ => by simp [Value.asText?_eq_some_iff]
  have hcount {key : String} {default x : UInt64} :
      setting t key default Value.asUInt64? = some x ↔ t.Gives key default Value.IsCount x :=
    setting_eq_some_iff fun v _ hv => Value.asUInt64?_eq_some_iff (ht.lookup hv)
  have hhours {key : String} {default x : Int32} :
      setting t key default Value.asInt32? = some x ↔ t.Gives key default Value.IsHours x :=
    setting_eq_some_iff fun _ _ _ => Value.asInt32?_eq_some_iff
  simp only [ofTable?, Option.bind_eq_bind, Option.bind_eq_some_iff, htext, hoption, hcount, hhours]
  constructor
  · rintro ⟨serverUrl, h1, username, h2, password, h3, requestTimeout, h4, pageSize, h5,
      transmitDelay, h6, zone, h7, h⟩
    obtain rfl := Option.some.inj h
    exact ⟨h1, h2, h3, h4, h5, h6, h7⟩
  · rintro ⟨h1, h2, h3, h4, h5, h6, h7⟩
    exact ⟨_, h1, _, h2, _, h3, _, h4, _, h5, _, h6, _, h7, rfl⟩

theorem exists_gives_iff {α : Type} {key : String} {default : α} {is : Value → α → Prop} :
    (∃ x, t.Gives key default is x) ↔ ∀ v, t.lookup key = some v → ∃ x, is v x := by
  unfold Table.Gives
  cases hv : t.lookup key with
  | none => simp
  | some v => simp

theorem exists_follows_iff : (∃ c : Config, c.Follows t) ↔ t.WellTyped := by
  have hoption {v : Value} : (∃ x, ∃ s, v.IsText s ∧ some s = x) ↔ ∃ s, v.IsText s :=
    ⟨fun ⟨_, s, hs, _⟩ => ⟨s, hs⟩, fun ⟨s, hs⟩ => ⟨some s, s, hs, rfl⟩⟩
  constructor
  · rintro ⟨c, h⟩
    have husername (v : Value) (hv : t.lookup "username" = some v) : ∃ s, v.IsText s :=
      hoption.mp (exists_gives_iff.mp ⟨_, h.username⟩ v hv)
    have hpassword (v : Value) (hv : t.lookup "password" = some v) : ∃ s, v.IsText s :=
      hoption.mp (exists_gives_iff.mp ⟨_, h.password⟩ v hv)
    refine ⟨?_, ?_, exists_gives_iff.mp ⟨_, h.zone⟩⟩
    · simpa using ⟨exists_gives_iff.mp ⟨_, h.serverUrl⟩, husername, hpassword⟩
    · simpa using ⟨exists_gives_iff.mp ⟨_, h.requestTimeout⟩, exists_gives_iff.mp ⟨_, h.pageSize⟩,
        exists_gives_iff.mp ⟨_, h.transmitDelay⟩⟩
  · rintro ⟨htext, hcount, hhours⟩
    obtain ⟨serverUrl, h1⟩ := exists_gives_iff.mpr (htext "server_url" (by decide))
    obtain ⟨username, h2⟩ := exists_gives_iff.mpr fun v hv =>
      hoption.mpr (htext "username" (by decide) v hv)
    obtain ⟨password, h3⟩ := exists_gives_iff.mpr fun v hv =>
      hoption.mpr (htext "password" (by decide) v hv)
    obtain ⟨requestTimeout, h4⟩ := exists_gives_iff.mpr (hcount "request_timeout_secs" (by decide))
    obtain ⟨pageSize, h5⟩ := exists_gives_iff.mpr (hcount "page_size" (by decide))
    obtain ⟨transmitDelay, h6⟩ := exists_gives_iff.mpr (hcount "transmit_delay_ms" (by decide))
    obtain ⟨zone, h7⟩ := exists_gives_iff.mpr hhours
    exact ⟨⟨serverUrl, username, password, requestTimeout, pageSize, transmitDelay, zone⟩,
      h1, h2, h3, h4, h5, h6, h7⟩

/-- Settings depend on the known keys only. -/
theorem ofTable?_congr {s : Table} (h : s.AgreeOn (· ∈ knownKeys) t) :
    ofTable? s = ofTable? t := by
  have htext (key : String) (hkey : key ∈ knownKeys) (default : String) :
      setting s key default Value.asText? = setting t key default Value.asText? :=
    setting_congr Value.asText?_outline (h key hkey)
  have hoption (key : String) (hkey : key ∈ knownKeys) (default : Option String) :
      (setting s key default fun v => v.asText?.map some) =
        setting t key default fun v => v.asText?.map some :=
    setting_congr (fun v => by rw [Value.asText?_outline]) (h key hkey)
  have hcount (key : String) (hkey : key ∈ knownKeys) (default : UInt64) :
      setting s key default Value.asUInt64? = setting t key default Value.asUInt64? :=
    setting_congr Value.asUInt64?_outline (h key hkey)
  have hhours (key : String) (hkey : key ∈ knownKeys) (default : Int32) :
      setting s key default Value.asInt32? = setting t key default Value.asInt32? :=
    setting_congr Value.asInt32?_outline (h key hkey)
  simp only [ofTable?]
  rw [htext "server_url" (by decide), hoption "username" (by decide),
    hoption "password" (by decide), hcount "request_timeout_secs" (by decide),
    hcount "page_size" (by decide), hcount "transmit_delay_ms" (by decide),
    hhours "time_zone_correction_hours" (by decide)]

end Config

end FeedDesk
