import FeedDesk.Feed.Projection
import FeedDesk.Proofs.Feed.Members
import FeedDesk.Proofs.Json.Places
import FeedDesk.Proofs.Number.Nearest

/-!
# What the size of an item says

The text of a size is read back as a number of megabytes, together with what one unit of its last
digit is worth. It is the nearest multiple of this unit. Sizes of different precision are kept
apart by the limit between them, which is a multiple of the units on both sides: the smaller size
is rounded to at most the limit, and the greater one to no less.
-/
namespace FeedDesk

open Number

namespace Size

/-! ## The ranges and their limits -/

/-- What one unit of the last digit is worth in a range, in megabytes. -/
def Band.step (b : Band) : ℚ := b.megabytes / 10 ^ b.places

/-- The range of the sizes that are above no limit. -/
def lowest : Band := ⟨2, 1, "MB"⟩

/-- The other ranges, each with the limit above which it begins, from the top. -/
def ranges : List (ℕ × Band) :=
  [(10240, ⟨1, 1024, "GB"⟩), (1024, ⟨2, 1024, "GB"⟩), (100, ⟨0, 1, "MB"⟩), (10, ⟨1, 1, "MB"⟩)]

/-- The first of some ranges above whose limit a number of megabytes is. -/
def bandIn : List (ℕ × Band) → ℚ → Band
  | [], _ => lowest
  | (limit, b) :: rest, x => if limit < x then b else bandIn rest x

def bandAt : ℚ → Band := bandIn ranges

section

variable {a : Binary64} {x y : ℚ}

theorem band_eq_bandAt (h : a.value? = some x) : band a = bandAt x := by
  simp only [band, bandAt, bandIn, ranges, Binary64.exceeds_iff h]
  rfl

theorem bandIn_cases (t : List (ℕ × Band)) (x : ℚ) :
    bandIn t x = lowest ∨ ∃ p ∈ t, (p.1 : ℚ) < x ∧ bandIn t x = p.2 := by
  induction t with
  | nil => exact .inl rfl
  | cons p t ih =>
    by_cases hp : (p.1 : ℚ) < x
    · exact .inr ⟨p, List.mem_cons_self, hp, if_pos hp⟩
    · rw [bandIn, if_neg hp]
      exact ih.imp_right fun ⟨q, hq, h⟩ => ⟨q, List.mem_cons_of_mem p hq, h⟩

/-- What holds of all ranges holds of the range of every size. -/
theorem bandAt_induction {motive : Band → Prop} (hlowest : motive lowest)
    (hranges : ∀ p ∈ ranges, motive p.2) (x : ℚ) : motive (bandAt x) := by
  rw [bandAt]
  obtain heq | ⟨p, hp, -, heq⟩ := bandIn_cases ranges x
  · exact heq ▸ hlowest
  · exact heq ▸ hranges p hp

theorem megabytes_pos (x : ℚ) : 0 < (bandAt x).megabytes :=
  bandAt_induction (motive := fun b => 0 < b.megabytes) (by decide) (by decide) x

theorem step_pos (x : ℚ) : 0 < (bandAt x).step :=
  div_pos (Nat.cast_pos.mpr (megabytes_pos x)) (by positivity)

/-- Two sizes in different ranges are separated by the limit of the second range. -/
theorem exists_limit (t : List (ℕ × Band)) (hxy : x ≤ y) :
    bandIn t x = bandIn t y ∨ ∃ p ∈ t, x ≤ p.1 ∧ p.1 ≤ y ∧ bandIn t y = p.2 := by
  induction t with
  | nil => exact .inl rfl
  | cons p t ih =>
    by_cases hy : (p.1 : ℚ) < y
    · by_cases hx : (p.1 : ℚ) < x
      · exact .inl ((if_pos hx).trans (if_pos hy).symm)
      · exact .inr ⟨p, List.mem_cons_self, not_lt.mp hx, hy.le, if_pos hy⟩
    · have hx : ¬ (p.1 : ℚ) < x := fun h => hy (h.trans_le hxy)
      rw [bandIn, bandIn, if_neg hx, if_neg hy]
      exact ih.imp_right fun ⟨q, hq, h⟩ => ⟨q, List.mem_cons_of_mem p hq, h⟩

end

def Band.Marks (b : Band) (limit : ℕ) : Prop := b.megabytes ∣ limit * 10 ^ b.places

instance (b : Band) (limit : ℕ) : Decidable (b.Marks limit) :=
  inferInstanceAs (Decidable (b.megabytes ∣ limit * 10 ^ b.places))

theorem Band.Marks.exists_mul_step {b : Band} {limit : ℕ} (h : b.Marks limit) :
    ∃ k : ℤ, (limit : ℚ) = k * b.step := by
  obtain ⟨k, hk⟩ := h
  have hcast : (limit : ℚ) * 10 ^ b.places = b.megabytes * k := by exact_mod_cast hk
  refine ⟨k, ?_⟩
  rw [Band.step, Int.cast_natCast, ← mul_div_assoc, eq_div_iff (by positivity), hcast, mul_comm]

/-- A limit is a multiple of the units of the range above it and of all ranges below it. -/
theorem marks_limits : ∀ p ∈ ranges, p.2.Marks p.1 ∧ lowest.Marks p.1 ∧
    ∀ q ∈ ranges, q.1 < p.1 → q.2.Marks p.1 := by
  decide

theorem marks_of_le {p : ℕ × Band} {x : ℚ} (hp : p ∈ ranges) (hx : x ≤ p.1) :
    (bandAt x).Marks p.1 := by
  obtain ⟨-, hlowest, hbelow⟩ := marks_limits p hp
  rw [bandAt]
  obtain heq | ⟨q, hq, hqx, heq⟩ := bandIn_cases ranges x
  · exact heq ▸ hlowest
  · exact heq ▸ hbelow q hq (by exact_mod_cast hqx.trans_le hx)

/-- A greater size is not rounded to a smaller one. -/
theorem rounded_mono {x y : ℚ} {r r' : ℤ} (hxy : x ≤ y) (h : IsNearest r (x / (bandAt x).step))
    (h' : IsNearest r' (y / (bandAt y).step)) :
    r * (bandAt x).step ≤ r' * (bandAt y).step := by
  have hx := step_pos x
  have hy := step_pos y
  obtain hband | ⟨p, hp, hxp, hpy, hband⟩ := exists_limit ranges hxy
  · change bandAt x = bandAt y at hband
    rw [hband] at h ⊢
    have hle : r ≤ r' := h.le_of_le h' (by gcongr)
    gcongr
  · change bandAt y = p.2 at hband
    have hmarks : (bandAt y).Marks p.1 := hband ▸ (marks_limits p hp).1
    obtain ⟨k, hk⟩ := (marks_of_le hp hxp).exists_mul_step
    obtain ⟨k', hk'⟩ := hmarks.exists_mul_step
    have hbelow : r ≤ k := h.le_intCast ((div_le_iff₀ hx).mpr (hk ▸ hxp))
    have habove : k' ≤ r' := h'.intCast_le ((le_div_iff₀ hy).mpr (hk' ▸ hpy))
    calc r * (bandAt x).step ≤ k * (bandAt x).step := by gcongr
      _ = k' * (bandAt y).step := hk.symm.trans hk'
      _ ≤ r' * (bandAt y).step := by gcongr

/-! ## Reading a size -/

/-- What the text of a size denotes, and what one unit of its last digit is worth, in megabytes. -/
structure Measure where
  megabytes : ℚ
  step : ℚ

def unitOf? : List Char → Option ℕ
  | [' ', 'M', 'B'] => some 1
  | [' ', 'G', 'B'] => some 1024
  | _ => none

def measure? (text : String) : Option Measure := do
  let (n, rest) ← Json.readNumber text.toList
  guard (n.power = none)
  let unit ← unitOf? rest
  let step : ℚ := unit / 10 ^ n.fraction.length
  pure ⟨(if n.negative then -1 else 1) * ofDigits 0 (n.whole ++ n.fraction) * step, step⟩

theorem isNearest_scaledRound (m : ℕ) (e : ℤ) {b : Band} (hpos : 0 < b.megabytes) :
    IsNearest (scaledRound b.places (Binary64.ratio m e).1
      ((Binary64.ratio m e).2 * b.megabytes) : ℕ) (m * 2 ^ e / b.step) := by
  have hden := Nat.mul_pos (Binary64.ratio_snd_pos m e) hpos
  have hmb : (0 : ℚ) < b.megabytes := by exact_mod_cast hpos
  have hvalue : (m : ℚ) * 2 ^ e / b.step = ((Binary64.ratio m e).1 * Nat.pow 10 b.places : ℕ) /
      ((Binary64.ratio m e).2 * b.megabytes : ℕ) := by
    rw [← Binary64.ratio_div, Band.step, Nat.pow_eq]
    push_cast
    field_simp
  exact hvalue ▸ isNearest_roundHalfEven _ hden

/-- The text of a finite size denotes the nearest multiple of the last digit's unit. -/
theorem measure?_ofMegabytes {a : Binary64} {x : ℚ} (h : a.value? = some x) :
    ∃ r : ℤ, measure? (ofMegabytes a) = some ⟨r * (bandAt x).step, (bandAt x).step⟩ ∧
      IsNearest r (x / (bandAt x).step) := by
  have hband := band_eq_bandAt h
  have hpos := megabytes_pos x
  have hunit : unitOf? (' ' :: (bandAt x).unit.toList) = some (bandAt x).megabytes :=
    bandAt_induction (motive := fun b => unitOf? (' ' :: b.unit.toList) = some b.megabytes)
      (by decide) (by decide) x
  match a, h with
  | .finite s m e, h =>
    generalize bandAt x = b at hband hpos hunit
    obtain rfl := Option.some.inj h
    have hround := isNearest_scaledRound m e hpos
    have hread := NumberLiteral.readNumber_fixed b.places s (Binary64.ratio m e).1
      ((Binary64.ratio m e).2 * b.megabytes) (Json.endsNumber_space b.unit.toList)
    generalize hunits : scaledRound b.places (Binary64.ratio m e).1
      ((Binary64.ratio m e).2 * b.megabytes) = units at hround hread
    have hchars : (ofMegabytes (.finite s m e)).toList =
        fixed b.places s (Binary64.ratio m e).1 ((Binary64.ratio m e).2 * b.megabytes)
          ++ ' ' :: b.unit.toList := by
      simp only [ofMegabytes, hband, amount, String.toList_append, String.toList_ofList,
        List.append_assoc]
      rfl
    rw [← hchars] at hread
    have hmeasure : measure? (ofMegabytes (.finite s m e)) =
        some ⟨(if s then -1 else 1) * units * b.step, b.step⟩ := by
      simp only [measure?, hread, hunit, Option.bind_eq_bind, Option.bind_some,
        NumberLiteral.ofDigits_ofUnits, NumberLiteral.length_fraction_ofUnits]
      rfl
    cases s with
    | false => exact ⟨units, by simpa using hmeasure, by simpa using hround⟩
    | true => exact ⟨-units, by simpa using hmeasure, by simpa [neg_div] using hround.neg⟩

section

variable {a b : Binary64} {x y : ℚ}

/-- A size is denoted up to half a unit of the last digit. -/
theorem measure?_accurate (h : a.value? = some x) :
    ∃ u, measure? (ofMegabytes a) = some u ∧ |u.megabytes - x| ≤ u.step / 2 := by
  obtain ⟨r, hread, hnear⟩ := measure?_ofMegabytes h
  exact ⟨_, hread, hnear.abs_mul_sub_le (step_pos x)⟩

theorem measure?_mono (ha : a.value? = some x) (hb : b.value? = some y) (hxy : x ≤ y) :
    ∃ u v, measure? (ofMegabytes a) = some u ∧ measure? (ofMegabytes b) = some v ∧
      u.megabytes ≤ v.megabytes := by
  obtain ⟨r, hread, hnear⟩ := measure?_ofMegabytes ha
  obtain ⟨r', hread', hnear'⟩ := measure?_ofMegabytes hb
  exact ⟨_, _, hread, hread', rounded_mono hxy hnear hnear'⟩

end

/-! ## Counts of bytes -/

theorem value?_megabytes {n : ℕ} {x : ℚ} (h : (Binary64.ofNat n).value? = some x) :
    (megabytes n).value? = some (x / 2 ^ 20) := by
  obtain ⟨m, e, hform, rfl⟩ := Binary64.finite_of_value?_ofRatio Nat.one_pos h
  rw [← Binary64.ofNat] at hform
  simp only [megabytes, hform, Binary64.value?, zpow_sub₀ (two_ne_zero' ℚ)]
  norm_num
  ring

/-- More bytes are not written as less, whatever the numbers of megabytes are. -/
theorem text_mono {m n : ℕ} (mb mb' : Binary64) (hm : 0 < m) (hmn : m ≤ n) (hn : n < 2 ^ 64) :
    ∃ u v, measure? (text mb m) = some u ∧ measure? (text mb' n) = some v ∧
      u.megabytes ≤ v.megabytes := by
  obtain ⟨y, hy, -⟩ := Binary64.ofNat_mono hn.le (Binary64.value?_ofNat_two_pow (by decide))
  obtain ⟨x, hx, hxy⟩ := Binary64.ofNat_mono hmn hy
  rw [text, text, if_pos hm, if_pos (hm.trans_le hmn)]
  exact measure?_mono (value?_megabytes hx) (value?_megabytes hy) (by gcongr)

/-! ## Sizes that are left out -/

theorem ofMegabytes_ne (a : Binary64) : ofMegabytes a ≠ "" := by
  intro h
  have hchars := congrArg String.toList h
  simp [ofMegabytes] at hchars

end Size

namespace Item

variable {item : Item}

/-- The number of megabytes of every item that is read is finite. -/
theorem value?_sizeMb {j : Json} (h : ofJson? j = some item) :
    ∃ x, item.sizeMb.value? = some x := by
  obtain ⟨r, -, hr⟩ := Option.bind_eq_some_iff.mp h
  have hfield := ofRecord?_eq_some_iff.mp hr "SizeMB" (by decide)
  change some (.megabytes item.sizeMb) = fieldOf? "SizeMB" (r.get? "SizeMB") at hfield
  cases hget : r.get? "SizeMB" with
  | none =>
    rw [hget] at hfield
    obtain heq := Field.megabytes.inj (Option.some.inj hfield)
    exact heq ▸ ⟨_, rfl⟩
  | some v =>
    rw [hget] at hfield
    obtain ⟨x, hx, heq⟩ := Option.map_eq_some_iff.mp hfield.symm
    obtain rfl := Field.megabytes.inj heq
    match v, hx with
    | .number n, hx => exact value?_of_ofDecimal? hx

theorem sizeUnknown_iff {x : ℚ} (h : item.sizeMb.value? = some x) :
    item.sizeUnknown = true ↔ item.sizeLow = 0 ∧ item.sizeHigh = 0 ∧ x ≤ 0 := by
  simp only [sizeUnknown, Bool.and_eq_true, beq_iff_eq, Binary64.isNotPositive_iff h]
  tauto

theorem sizeBytes_eq_zero_iff : item.sizeBytes = 0 ↔ item.sizeLow = 0 ∧ item.sizeHigh = 0 := by
  have hsize : UInt32.size = 4294967296 := rfl
  rw [← UInt32.toNat_inj, ← UInt32.toNat_inj, sizeBytes, UInt32.toNat_zero, hsize]
  omega

/-- The size column is empty exactly if neither of the two sizes is known. -/
theorem sizeText_eq_empty_iff {x : ℚ} (h : item.sizeMb.value? = some x) :
    item.sizeText = "" ↔ item.sizeUnknown = true := by
  rw [sizeText]
  split
  · next hunknown => exact iff_of_true rfl hunknown
  · next hknown =>
    refine iff_of_false (fun hempty => hknown ?_) hknown
    rw [Size.text] at hempty
    split at hempty
    · exact absurd hempty (Size.ofMegabytes_ne _)
    · next hbytes =>
      split at hempty
      · exact absurd hempty (Size.ofMegabytes_ne _)
      · next hmb =>
        rw [Binary64.exceeds_iff h, Nat.cast_zero, not_lt] at hmb
        obtain ⟨hlow, hhigh⟩ := sizeBytes_eq_zero_iff.mp (Nat.eq_zero_of_not_pos hbytes)
        exact (sizeUnknown_iff h).mpr ⟨hlow, hhigh, hmb⟩

end Item

/-! ## The law of sizes -/

namespace Size

/-- How sizes are written. A number of the format counts as its exact value, and a text as the
number of megabytes that it is read as. -/
structure Lawful : Prop where
  monotone : ∀ a b x y, a.value? = some x → b.value? = some y → x ≤ y →
    ∃ u v, measure? (ofMegabytes a) = some u ∧ measure? (ofMegabytes b) = some v ∧
      u.megabytes ≤ v.megabytes
  accurate : ∀ a x, a.value? = some x →
    ∃ u, measure? (ofMegabytes a) = some u ∧ |u.megabytes - x| ≤ u.step / 2
  bytes : ∀ (m n : UInt64) (mb mb' : Binary64), 0 < m → m ≤ n →
    ∃ u v, measure? (text mb m.toNat) = some u ∧ measure? (text mb' n.toNat) = some v ∧
      u.megabytes ≤ v.megabytes
  empty : ∀ j item naming clock, Item.ofJson? j = some item →
    ((Row.ofItem naming clock item).size = "" ↔ item.sizeUnknown = true)
  unknown : ∀ j item, Item.ofJson? j = some item → ∃ x, item.sizeMb.value? = some x ∧
    (item.sizeUnknown = true ↔ item.sizeLow = 0 ∧ item.sizeHigh = 0 ∧ x ≤ 0)

/-- Greater sizes are not written as smaller ones, every text is right up to half a unit of its
last digit, and only a size that the server does not give is left out. -/
theorem sizes_lawful : Lawful where
  monotone _ _ _ _ := measure?_mono
  accurate _ _ := measure?_accurate
  bytes m n mb mb' hm hmn :=
    text_mono mb mb' (UInt64.lt_iff_toNat_lt.mp hm) (UInt64.le_iff_toNat_le.mp hmn) n.toNat_lt
  empty j item naming clock h := by
    obtain ⟨x, hx⟩ := item.value?_sizeMb h
    exact Item.sizeText_eq_empty_iff hx
  unknown j item h := by
    obtain ⟨x, hx⟩ := item.value?_sizeMb h
    exact ⟨x, hx, Item.sizeUnknown_iff hx⟩

example : ofMegabytes (.ofNat 1024) = "1024 MB" ∧ ofMegabytes (.ofNat 1025) = "1.00 GB" := by
  decide +kernel

end Size

end FeedDesk
