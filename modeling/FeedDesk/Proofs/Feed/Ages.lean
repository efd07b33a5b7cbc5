import FeedDesk.Feed.Age
import FeedDesk.Proofs.Json.Number
import FeedDesk.Proofs.Number.Nearest
import Mathlib.Algebra.Order.Floor.Semifield

/-!
# What the age of an item says

The text of an age is read back as a unit and a number. The number is taken from a binary64
quotient, which is never on the other side of a half than the exact one: the halves are on the
grid of the format, and an exact quotient next to a half is too far from it to be rounded to it.
So the number is the rounding of the exact quotient, and an item is never shown as older than one
that appeared before it.
-/
namespace FeedDesk.Age

open Number

/-! ## Reading an age -/

/-- The unit and the number that an age is told in. -/
structure Reading where
  unit : Scale
  number : ℕ
  deriving DecidableEq, Repr

def read? (text : String) : Option Reading :=
  let (ds, rest) := Json.readDigits text.toList
  if ds.isEmpty then none
  else ([.minutes, .hours, .days].find? fun unit : Scale => rest == ' ' :: unit.letter.toList).map
    (⟨·, ofDigits 0 ds⟩)

theorem read?_text (unit : Scale) (n : ℕ) :
    read? (Nat.repr n ++ " " ++ unit.letter) = some ⟨unit, n⟩ := by
  have hchars : (Nat.repr n ++ " " ++ unit.letter).toList =
      (digitsOf n).map digitChar ++ ' ' :: unit.letter.toList := by
    rw [String.toList_append, String.toList_append, Nat.toList_repr, toDigits_eq_map,
      List.append_assoc]
    rfl
  have hread : Json.readDigits ((digitsOf n).map digitChar ++ ' ' :: unit.letter.toList) =
      (digitsOf n, ' ' :: unit.letter.toList) :=
    Json.readDigits_append (fun d hd => digitsOf_lt hd) fun c hc => by
      obtain rfl := Option.some.inj hc
      rfl
  simp only [read?, hchars, hread, List.isEmpty_iff, digitsOf_ne_nil, if_false, ofDigits_digitsOf]
  cases unit <;> rfl

/-! ## The rounded quotient -/

theorem roundHalfUp_eq_floor (num den : ℕ) (hden : 0 < den) :
    roundHalfUp num den = ⌊(num : ℚ) / den + 1 / 2⌋₊ := by
  have hquot : (num : ℚ) / den + 1 / 2 = (2 * num + den : ℕ) / (2 * den : ℕ) := by
    push_cast
    field_simp
  rw [hquot, Nat.floor_div_eq_div, roundHalfUp]

section

variable {n unit num den : ℕ} {r e : ℤ} {x y : ℚ}

/-- The place to which a quotient of a number of 53 bits is rounded is finer than the steps
between such quotients. -/
theorem unit_mul_lt (hn : 0 < n) (hlt : n < 2 ^ 53) (hunit : 0 < unit) (hle : unit ≤ 2 ^ 17) :
    (2 : ℚ) ^ Binary64.unitExponent (n / unit) * unit < 2 := by
  have hpos : (0 : ℚ) < (n : ℚ) / unit := by positivity
  obtain hmin | hmin := (Binary64.minExponent_le_unitExponent ((n : ℚ) / unit)).eq_or_lt
  · rw [← hmin]
    calc (2 : ℚ) ^ Binary64.minExponent * unit ≤ 2 ^ (-17 : ℤ) * 2 ^ (17 : ℤ) := by
          gcongr
          · exact one_le_two
          · decide
          · exact_mod_cast hle
      _ < 2 := by norm_num
  · have hfull := Binary64.le_div_unit hpos hmin
    rw [div_div, le_div_iff₀ (by positivity), mul_comm (unit : ℚ)] at hfull
    have hbits : (n : ℚ) < 2 ^ (52 : ℤ) * 2 := by exact_mod_cast hlt
    exact lt_of_mul_lt_mul_left (hfull.trans_lt hbits) (by positivity)

theorem unitExponent_neg (hn : 0 < n) (hlt : n < 2 ^ 53) (hunit : 0 < unit) (heven : Even unit)
    (hle : unit ≤ 2 ^ 17) : Binary64.unitExponent ((n : ℚ) / unit) < 0 := by
  have htwo : (2 : ℚ) ≤ unit := by
    obtain ⟨half, rfl⟩ := heven
    exact_mod_cast (by omega : 2 ≤ half + half)
  have hone : (2 : ℚ) ^ Binary64.unitExponent ((n : ℚ) / unit) < 2 ^ (0 : ℤ) := by
    have hfine := unit_mul_lt hn hlt hunit hle
    rw [zpow_zero]
    nlinarith
  exact (zpow_lt_zpow_iff_right₀ one_lt_two).mp hone

/-- Quotients by an even unit are at least one of their steps below the next half. -/
theorem add_step_le_half (hunit : 0 < unit) (heven : Even unit) {k : ℤ}
    (h : (n : ℚ) / unit < k / 2) : (n : ℚ) / unit + 1 / unit ≤ k / 2 := by
  have hpos : (0 : ℚ) < unit := by exact_mod_cast hunit
  obtain ⟨half, rfl⟩ := heven
  rw [div_lt_div_iff₀ hpos two_pos] at h
  have hstep : (n * 2 + 2 : ℤ) ≤ k * (half + half : ℕ) := by
    have hlt : (n * 2 : ℤ) < k * (half + half : ℕ) := by exact_mod_cast h
    have htwice : k * ((half : ℤ) + half) = k * half * 2 := by ring
    push_cast at hlt ⊢
    omega
  have hcast : ((n * 2 + 2 : ℤ) : ℚ) ≤ (k * (half + half : ℕ) : ℤ) := by exact_mod_cast hstep
  rw [← add_div, div_le_div_iff₀ hpos two_pos]
  push_cast at hcast ⊢
  linarith

/-- Rounding to a place that is finer than the steps stays below the next half. -/
theorem mul_unit_lt_half (hunit : 0 < unit) (heven : Even unit) (hfine : (2 : ℚ) ^ e * unit < 2)
    (h : IsNearest r (n / unit / 2 ^ e)) {k : ℤ} (hbelow : (n : ℚ) / unit < k / 2) :
    r * (2 : ℚ) ^ e < k / 2 := by
  have hpos : (0 : ℚ) < unit := by exact_mod_cast hunit
  have hplace : (2 : ℚ) ^ e / 2 < 1 / unit := by
    rw [div_lt_div_iff₀ two_pos hpos, one_mul]
    exact hfine
  have hgap := add_step_le_half hunit heven hbelow
  have hnear := (abs_le.mp (h.abs_mul_sub_le (by positivity))).2
  linarith

/-- The halves are whole numbers of a place that is finer than one, so rounding keeps above them. -/
theorem half_le_mul_unit (he : e < 0) (h : IsNearest r (x / 2 ^ e)) {k : ℤ}
    (habove : (k : ℚ) / 2 ≤ x) : (k : ℚ) / 2 ≤ r * 2 ^ e := by
  obtain ⟨j, hj⟩ := Int.eq_ofNat_of_zero_le (show 0 ≤ -(e + 1) by omega)
  obtain rfl : e = -((j : ℤ) + 1) := by omega
  have hgrid : (k : ℚ) / 2 = (k * 2 ^ j : ℤ) * 2 ^ (-((j : ℤ) + 1)) := by
    rw [zpow_neg, zpow_add_one₀ two_ne_zero, zpow_natCast]
    push_cast
    field_simp
  rw [hgrid] at habove ⊢
  rw [← le_div_iff₀ (by positivity)] at habove
  have hle := h.intCast_le habove
  gcongr

/-- A quotient by an even unit and its rounding lie on the same side of every half. -/
theorem half_le_iff (hlt : n < 2 ^ 53) (hunit : 0 < unit) (heven : Even unit) (hle : unit ≤ 2 ^ 17)
    (hden : 0 < den) (hquot : (num : ℚ) / den = n / unit)
    (hy : (Binary64.ofRatio false num den).value? = some y) (k : ℤ) :
    (k : ℚ) / 2 ≤ y ↔ (k : ℚ) / 2 ≤ n / unit := by
  have hdenpos : (0 : ℚ) < den := by exact_mod_cast hden
  rcases Nat.eq_zero_or_pos n with rfl | hn
  · obtain rfl : num = 0 := by simpa [hdenpos.ne'] using hquot
    obtain rfl : (0 : ℚ) = y := by
      simpa [Binary64.ofRatio, Binary64.zero, Binary64.value?] using hy
    simp
  have hnum : 0 < num := by
    have hpos : (0 : ℚ) < num / den := hquot ▸ by positivity
    exact_mod_cast (div_pos_iff_of_pos_right hdenpos).mp hpos
  obtain ⟨r, hpack, hr⟩ := Binary64.ofRatio_eq_pack false hnum hden
  rw [hpack, Binary64.value?_pack, if_neg Bool.false_ne_true, one_mul] at hy
  obtain ⟨-, rfl⟩ := hy
  rw [hquot] at hr ⊢
  have hfine := unit_mul_lt hn hlt hunit hle
  have hneg := unitExponent_neg hn hlt hunit heven hle
  constructor
  · contrapose!
    exact mul_unit_lt_half hunit heven hfine hr
  · exact half_le_mul_unit hneg hr

/-- The quotients on the same side of every half are rounded upwards in the same way. -/
theorem floor_eq_of_halves (h : ∀ k : ℤ, (k : ℚ) / 2 ≤ x ↔ (k : ℚ) / 2 ≤ y) (hx : 0 ≤ x)
    (hy : 0 ≤ y) : ⌊x + 1 / 2⌋₊ = ⌊y + 1 / 2⌋₊ := by
  refine eq_of_forall_le_iff fun k => ?_
  rw [Nat.le_floor_iff (by positivity), Nat.le_floor_iff (by positivity)]
  have hside (z : ℚ) : (k : ℚ) ≤ z + 1 / 2 ↔ ((2 * k - 1 : ℤ) : ℚ) / 2 ≤ z := by
    push_cast
    constructor <;> intro <;> linarith
  rw [hside, hside, h]

end

/-! ## Counting units -/

/-- The rounded quotients from which the number of units is taken. -/
structure Rounds (n : ℕ) (unit : Scale) (x y : ℚ) : Prop where
  seconds : (Binary64.ofNat n).value? = some x
  quotient : ∃ num den : ℕ, 0 < den ∧ (num : ℚ) / den = x / unit.seconds ∧
    (Binary64.ofRatio false num den).value? = some y
  count : count n unit = ⌊y + 1 / 2⌋₊

section

variable {n n' : ℕ} {unit : Scale} {x x' y y' : ℚ}

theorem Scale.seconds_pos (unit : Scale) : 0 < unit.seconds := by cases unit <;> decide

theorem Scale.le_seconds (unit : Scale) : 2 ^ 5 ≤ unit.seconds := by cases unit <;> decide

/-- The number of units of every age is taken from a finite quotient, far below the limit. -/
theorem exists_rounds (hn : n < 2 ^ 63) (unit : Scale) :
    ∃ x y, Rounds n unit x y ∧ y ≤ (2 ^ 58 : ℕ) := by
  have hunit : (2 : ℚ) ^ 5 ≤ unit.seconds := by exact_mod_cast unit.le_seconds
  obtain ⟨x, hx, hxle⟩ := Binary64.ofNat_mono hn.le (Binary64.value?_ofNat_two_pow (by decide))
  obtain ⟨m, e, hform, hvalue⟩ := Binary64.finite_of_value?_ofRatio Nat.one_pos hx
  have hden : 0 < (Binary64.ratio m e).2 * unit.seconds :=
    Nat.mul_pos (Binary64.ratio_snd_pos m e) unit.seconds_pos
  have hquot : ((Binary64.ratio m e).1 : ℚ) / ((Binary64.ratio m e).2 * unit.seconds : ℕ) =
      x / unit.seconds := by
    rw [Nat.cast_mul, ← div_div, Binary64.ratio_div, hvalue]
  have hle : x / unit.seconds ≤ (2 ^ 58 : ℕ) / (1 : ℕ) := by
    rw [div_le_iff₀ (by positivity)]
    calc x ≤ (2 ^ 63 : ℕ) := hxle
      _ = (2 ^ 58 : ℕ) / (1 : ℕ) * 2 ^ 5 := by norm_num
      _ ≤ (2 ^ 58 : ℕ) / (1 : ℕ) * unit.seconds := by gcongr
  obtain ⟨y, hy, hyle⟩ := Binary64.ofRatio_mono hden Nat.one_pos (hquot.trans_le hle)
    (Binary64.value?_ofNat_two_pow (by decide))
  obtain ⟨m', e', hform', hvalue'⟩ := Binary64.finite_of_value?_ofRatio hden hy
  refine ⟨x, y, ⟨hx, ⟨_, _, hden, hquot, hy⟩, ?_⟩, hyle⟩
  rw [← Binary64.ofNat] at hform
  simp only [Age.count, hform, hform']
  rw [roundHalfUp_eq_floor _ _ (Binary64.ratio_snd_pos m' e'), Binary64.ratio_div, hvalue']

theorem Rounds.mono (h : Rounds n unit x y) (h' : Rounds n' unit x' y') (hle : n ≤ n') :
    y ≤ y' := by
  obtain ⟨num, den, hden, hquot, hy⟩ := h.quotient
  obtain ⟨num', den', hden', hquot', hy'⟩ := h'.quotient
  have hxx : x ≤ x' := by
    obtain ⟨z, hz, hzle⟩ := Binary64.ofNat_mono hle h'.seconds
    obtain rfl := Option.some.inj (h.seconds.symm.trans hz)
    exact hzle
  have hquots : (num : ℚ) / den ≤ num' / den' := by
    rw [hquot, hquot']
    gcongr
  obtain ⟨z, hz, hzle⟩ := Binary64.ofRatio_mono hden hden' hquots hy'
  obtain rfl := Option.some.inj (hy.symm.trans hz)
  exact hzle

theorem count_mono (hle : n ≤ n') (hn : n' < 2 ^ 63) (unit : Scale) :
    count n unit ≤ count n' unit := by
  obtain ⟨x, y, h, -⟩ := exists_rounds (hle.trans_lt hn) unit
  obtain ⟨x', y', h', -⟩ := exists_rounds hn unit
  rw [h.count, h'.count]
  have := h.mono h' hle
  gcongr

theorem count_le (hn : n < 2 ^ 63) (unit : Scale) : count n unit ≤ 2 ^ 58 := by
  obtain ⟨x, y, h, hle⟩ := exists_rounds hn unit
  rw [h.count, ← Nat.lt_add_one_iff]
  refine (Nat.floor_lt' (Nat.succ_ne_zero _)).mpr ?_
  push_cast at hle ⊢
  linarith

theorem count_eq (hn : n < 2 ^ 53) (unit : Scale) :
    count n unit = (2 * n + unit.seconds) / (2 * unit.seconds) := by
  obtain ⟨x, y, h, -⟩ := exists_rounds (hn.trans (by norm_num)) unit
  obtain ⟨hx, ⟨num, den, hden, hquot, hy⟩, hcount⟩ := h
  obtain rfl := Option.some.inj (hx.symm.trans (Binary64.value?_ofNat hn))
  have heven : Even unit.seconds := by cases unit <;> decide
  have hle : unit.seconds ≤ 2 ^ 17 := by cases unit <;> decide
  have hhalves := half_le_iff hn unit.seconds_pos heven hle hden hquot hy
  have hnonneg := Binary64.nonneg_of_value?_ofRatio hden hy
  rw [hcount, floor_eq_of_halves hhalves hnonneg (by positivity)]
  exact (roundHalfUp_eq_floor n unit.seconds unit.seconds_pos).symm

end

/-! ## Units -/

section

variable {n n' : ℕ}

theorem Scale.seconds_injective : Function.Injective Scale.seconds := by
  intro unit unit' h
  cases unit <;> cases unit' <;> first | rfl | cases h

theorem scale_eq_days : scale n = .days ↔ 86400 < n := by
  unfold scale
  split_ifs <;> simp <;> omega

theorem scale_eq_hours : scale n = .hours ↔ 3600 < n ∧ n ≤ 86400 := by
  unfold scale
  split_ifs <;> simp <;> omega

theorem scale_eq_minutes : scale n = .minutes ↔ n ≤ 3600 := by
  unfold scale
  split_ifs <;> simp <;> omega

theorem scale_seconds_mono (h : n ≤ n') : (scale n).seconds ≤ (scale n').seconds := by
  unfold scale
  split_ifs <;> simp [Scale.seconds] <;> omega

end

/-! ## Ages and times -/

/-- The seconds from an item's time in the operator's zone until now, none if it is still to come.
The difference and the shifted time stop at the ends of the 64 bits. -/
def elapsed (time : Int64) (zone : Int32) (now : Int64) : ℕ :=
  (max 0 (saturate (now.toInt - saturate (time.toInt + 3600 * zone.toInt)))).toNat

theorem saturate_mono {i j : ℤ} (h : i ≤ j) : saturate i ≤ saturate j :=
  max_le_max_left _ (min_le_min_left _ h)

theorem saturate_le (i : ℤ) : saturate i ≤ greatestInt64 :=
  max_le (by decide) (min_le_left _ _)

section

variable {time time' : Int64} {zone : Int32} {now : Int64}

theorem elapsed_lt : elapsed time zone now < 2 ^ 63 := by
  have hle := saturate_le (now.toInt - saturate (time.toInt + 3600 * zone.toInt))
  have hlimit : greatestInt64 = 2 ^ 63 - 1 := rfl
  unfold elapsed
  omega

theorem elapsed_antitone (h : time ≤ time') : elapsed time' zone now ≤ elapsed time zone now := by
  have htime : time.toInt ≤ time'.toInt := Int64.le_iff_toInt_le.mp h
  have hshift := saturate_mono (Int.add_le_add_right htime (3600 * zone.toInt))
  have hdiff := saturate_mono (Int.sub_le_sub_left hshift now.toInt)
  exact Int.toNat_le_toNat (max_le_max_left 0 hdiff)

theorem seconds_eq_elapsed : seconds time zone now = elapsed time zone now := by
  rw [seconds, elapsed, mul_comm zone.toInt]
  omega

end

/-! ## The law of ages -/

def Scale.Allows : Scale → ℕ → Prop
  | minutes, n => n ≤ 60
  | hours, n => 1 ≤ n ∧ n ≤ 24
  | days, n => 1 ≤ n

namespace Reading

/-- The reading is right for an age in seconds: in days above a day, in hours above an hour, and
rounded with halves upwards. -/
structure Tells (r : Reading) (age : ℕ) : Prop where
  days : r.unit = .days ↔ 86400 < age
  hours : r.unit = .hours ↔ 3600 < age ∧ age ≤ 86400
  minutes : r.unit = .minutes ↔ age ≤ 3600
  rounded : age < 2 ^ 53 → r.number = (2 * age + r.unit.seconds) / (2 * r.unit.seconds)
  allowed : r.unit.Allows r.number
  fits : (r.number : ℤ) ≤ greatestInt64

/-- The first reading is in a smaller unit, or in the same unit and not greater. -/
def AtMost (r r' : Reading) : Prop :=
  r.unit.seconds < r'.unit.seconds ∨ r.unit = r'.unit ∧ r.number ≤ r'.number

def ofSeconds (age : ℕ) : Reading := ⟨scale age, count age (scale age)⟩

variable {n n' : ℕ}

theorem allows_count (hn : n < 2 ^ 63) : (scale n).Allows (count n (scale n)) := by
  cases hscale : scale n with
  | minutes =>
    have hage := scale_eq_minutes.mp hscale
    rw [count_eq (by omega)]
    simp only [Scale.Allows, Scale.seconds]
    omega
  | hours =>
    have hage := scale_eq_hours.mp hscale
    rw [count_eq (by omega)]
    simp only [Scale.Allows, Scale.seconds]
    omega
  | days =>
    have hage := scale_eq_days.mp hscale
    calc 1 = count 86401 .days := (count_eq (n := 86401) (by norm_num) .days).symm
      _ ≤ count n .days := count_mono hage hn .days

theorem tells_ofSeconds (hn : n < 2 ^ 63) : (ofSeconds n).Tells n where
  days := scale_eq_days
  hours := scale_eq_hours
  minutes := scale_eq_minutes
  rounded hlt := count_eq hlt _
  allowed := allows_count hn
  fits := by
    have hle : ((ofSeconds n).number : ℤ) ≤ 2 ^ 58 := by exact_mod_cast count_le hn _
    exact hle.trans (by decide)

/-- The reading of an older item is not less. Between ages in different units, the unit alone
tells them apart. -/
theorem ofSeconds_atMost (hle : n ≤ n') (hn : n' < 2 ^ 63) :
    (ofSeconds n).AtMost (ofSeconds n') := by
  obtain hlt | heq := (scale_seconds_mono hle).lt_or_eq
  · exact .inl hlt
  · have hscale := Scale.seconds_injective heq
    refine .inr ⟨hscale, ?_⟩
    simp only [ofSeconds, hscale]
    exact count_mono hle hn _

end Reading

theorem read?_text_of_ne {time : Int64} (h : time ≠ 0) (zone : Int32) (now : Int64) :
    read? (text time zone now) = some (.ofSeconds (elapsed time zone now)) := by
  rw [text, if_neg h, seconds_eq_elapsed]
  exact read?_text _ _

/-- What the ages of items say in one zone and at one moment. The product of the zone is the one
step that does not stop at the ends of the 64 bits, and it stays within them. -/
structure Lawful (zone : Int32) (now : Int64) : Prop where
  zone_fits : leastInt64 ≤ 3600 * zone.toInt ∧ 3600 * zone.toInt ≤ greatestInt64
  tells : ∀ time ≠ 0, ∃ r, read? (text time zone now) = some r ∧ r.Tells (elapsed time zone now)
  antitone : ∀ time time' r r', time ≠ 0 → time' ≠ 0 → time ≤ time' →
    read? (text time zone now) = some r → read? (text time' zone now) = some r' → r'.AtMost r

/-- The age of every item with a time is told in the unit that its age asks for, in a number that
is rounded exactly, and a later item is never told to be older. -/
theorem ages_lawful (zone : Int32) (now : Int64) : Lawful zone now where
  zone_fits := by
    have hlow := zone.le_toInt
    have hhigh := zone.toInt_lt
    have hleast : leastInt64 = -2 ^ 63 := rfl
    have hgreatest : greatestInt64 = 2 ^ 63 - 1 := rfl
    omega
  tells time h := ⟨_, read?_text_of_ne h zone now, Reading.tells_ofSeconds elapsed_lt⟩
  antitone time time' r r' h h' hle hr hr' := by
    rw [read?_text_of_ne h] at hr
    rw [read?_text_of_ne h'] at hr'
    obtain rfl := Option.some.inj hr
    obtain rfl := Option.some.inj hr'
    exact Reading.ofSeconds_atMost (elapsed_antitone hle) elapsed_lt

example : text (-3600) 0 0 = "60 m" ∧ text (-3601) 0 0 = "1 h" := by decide +kernel

end FeedDesk.Age
