import FeedDesk.Proofs.Number.Whole

/-!
# Rounding to the nearest number

A quotient is rounded to a whole number of units of the last binary place, whose size depends on
the magnitude of the quotient. Both steps keep the order, so rounding to the binary64 format does,
and quotients below a finite number of the format are rounded to a finite number. A decimal is read
in steps that stay below a finite number, so it denotes a finite number, if it denotes one at all.
-/
namespace FeedDesk.Number

/-! ## Nearest whole numbers -/

/-- A whole number nearest to a rational; of two, the even one. -/
structure IsNearest (r : ℤ) (x : ℚ) : Prop where
  near : |(r : ℚ) - x| ≤ 1 / 2
  even : |(r : ℚ) - x| = 1 / 2 → Even r

namespace IsNearest

variable {r r' : ℤ} {x y : ℚ}

theorem intCast (r : ℤ) : IsNearest r r where
  near := by norm_num
  even h := by norm_num at h

theorem neg (h : IsNearest r x) : IsNearest (-r) (-x) := by
  have habs : |((-r : ℤ) : ℚ) - -x| = |(r : ℚ) - x| := by
    rw [Int.cast_neg, ← neg_sub', abs_neg]
  constructor
  · rw [habs]
    exact h.near
  · rw [habs]
    exact fun heq => (h.even heq).neg

/-- Rounding keeps the order. Two neighbours could only change places if both were halfway to the
same rational, and only one of them is even. -/
theorem le_of_le (h : IsNearest r x) (h' : IsNearest r' y) (hxy : x ≤ y) : r ≤ r' := by
  by_contra hlt
  have hstep : (r' : ℚ) + 1 ≤ r := by exact_mod_cast not_le.mp hlt
  obtain ⟨hlow, hhigh⟩ := abs_le.mp h.near
  obtain ⟨hlow', hhigh'⟩ := abs_le.mp h'.near
  have hr : (r : ℚ) = r' + 1 := by linarith
  have heven : Even r := by
    refine h.even ?_
    rw [abs_of_nonneg (by linarith)]
    linarith
  have heven' : Even r' := by
    refine h'.even ?_
    rw [abs_of_nonpos (by linarith)]
    linarith
  have hsucc : r = r' + 1 := by exact_mod_cast hr
  rw [hsucc, Int.even_add_one] at heven
  exact heven heven'

theorem le_intCast (h : IsNearest r x) (hx : x ≤ r') : r ≤ r' := h.le_of_le (intCast r') hx

theorem intCast_le (h : IsNearest r x) (hx : (r' : ℚ) ≤ x) : r' ≤ r := (intCast r').le_of_le h hx

theorem abs_mul_sub_le {step : ℚ} (h : IsNearest r (x / step)) (hstep : 0 < step) :
    |r * step - x| ≤ step / 2 := by
  have hscale : (r : ℚ) * step - x = (r - x / step) * step := by field_simp
  rw [hscale, abs_mul, abs_of_pos hstep]
  calc |r - x / step| * step ≤ 1 / 2 * step := by
        gcongr
        exact h.near
    _ = step / 2 := one_div_mul_eq_div 2 step

/-- A part of at most one half is dropped. -/
theorem below {part : ℚ} (hnonneg : 0 ≤ part) (h : 2 * part < 1 ∨ 2 * part = 1 ∧ Even r) :
    IsNearest r (r + part) := by
  have habs : |(r : ℚ) - (r + part)| = part := by
    rw [sub_add_cancel_left, abs_neg, abs_of_nonneg hnonneg]
  constructor
  · rw [habs]
    obtain h | ⟨h, -⟩ := h <;> linarith
  · rw [habs]
    intro heq
    obtain h | ⟨-, h⟩ := h
    · linarith
    · exact h

/-- A part of at least one half is filled up. -/
theorem above {part : ℚ} (hle : part ≤ 1) (h : 1 < 2 * part ∨ 2 * part = 1 ∧ ¬ Even r) :
    IsNearest (r + 1) (r + part) := by
  have habs : |((r + 1 : ℤ) : ℚ) - (r + part)| = 1 - part := by
    rw [Int.cast_add, Int.cast_one, add_sub_add_left_eq_sub, abs_of_nonneg (by linarith)]
  constructor
  · rw [habs]
    obtain h | ⟨h, -⟩ := h <;> linarith
  · rw [habs]
    intro heq
    obtain h | ⟨-, h⟩ := h
    · linarith
    · exact Int.even_add_one.mpr h

end IsNearest

theorem isNearest_roundHalfEven (num : ℕ) {den : ℕ} (hden : 0 < den) :
    IsNearest (roundHalfEven num den : ℕ) (num / den) := by
  have hdenpos : (0 : ℚ) < den := by exact_mod_cast hden
  obtain ⟨part, hpart⟩ : ∃ part : ℚ, part * den = (num % den : ℕ) :=
    ⟨(num % den : ℕ) / den, div_mul_cancel₀ _ hdenpos.ne'⟩
  have hnum : (num : ℚ) / den = ((num / den : ℕ) : ℤ) + part := by
    rw [div_eq_iff hdenpos.ne', add_mul, hpart]
    rw [Int.cast_natCast, ← Nat.cast_mul, ← Nat.cast_add, Nat.div_add_mod']
  have hnonneg : 0 ≤ part := by
    refine le_of_mul_le_mul_right ?_ hdenpos
    rw [hpart, zero_mul]
    exact Nat.cast_nonneg _
  have hlt : part < 1 := by
    refine lt_of_mul_lt_mul_right ?_ hdenpos.le
    rw [hpart, one_mul]
    exact_mod_cast Nat.mod_lt num hden
  have hless : 2 * (num % den) < den ↔ 2 * part < 1 := by
    rw [← mul_lt_mul_iff_left₀ hdenpos, mul_assoc, hpart, one_mul]
    exact_mod_cast Iff.rfl
  have hmore : den < 2 * (num % den) ↔ 1 < 2 * part := by
    rw [← mul_lt_mul_iff_left₀ hdenpos, mul_assoc, hpart, one_mul]
    exact_mod_cast Iff.rfl
  have heven : num / den % 2 = 0 ↔ Even ((num / den : ℕ) : ℤ) := by
    rw [Int.even_coe_nat, Nat.even_iff]
  rw [hnum]
  simp only [roundHalfEven, hless, hmore, heven]
  generalize num / den = q
  split_ifs with h₁ h₂ h₃
  · exact .below hnonneg (.inl h₁)
  · rw [Nat.cast_succ]
    exact .above hlt.le (.inl h₂)
  · exact .below hnonneg (.inr ⟨by linarith, h₃⟩)
  · rw [Nat.cast_succ]
    exact .above hlt.le (.inr ⟨by linarith, h₃⟩)

/-! ## Rounding to the format -/

namespace Binary64

def value? : Binary64 → Option ℚ
  | finite s m e => some ((if s then -1 else 1) * (m * 2 ^ e))
  | infinite _ => none
  | nan => none

def unitExponent (x : ℚ) : ℤ := max (Int.log 2 x - 52) minExponent

section

variable {x y : ℚ} {r num den num' den' : ℕ} {e : ℤ}

theorem minExponent_le_unitExponent (x : ℚ) : minExponent ≤ unitExponent x := le_max_right _ _

theorem unitExponent_le (hx : 0 < x) (hxy : x ≤ y) : unitExponent x ≤ unitExponent y :=
  max_le_max_right _ (Int.sub_le_sub_right (Int.log_mono_right hx hxy) 52)

theorem div_unit_lt (hx : 0 < x) : x / 2 ^ unitExponent x < 2 ^ (53 : ℤ) := by
  have hlog : Int.log 2 x < 53 + unitExponent x := by unfold unitExponent; omega
  rw [div_lt_iff₀ (by positivity), ← zpow_add₀ two_ne_zero]
  exact_mod_cast (Int.lt_zpow_iff_log_lt Nat.one_lt_two hx).mpr hlog

theorem le_div_unit (hx : 0 < x) (h : minExponent < unitExponent x) :
    2 ^ (52 : ℤ) ≤ x / 2 ^ unitExponent x := by
  have hlog : 52 + unitExponent x ≤ Int.log 2 x := by unfold unitExponent at h ⊢; omega
  rw [le_div_iff₀ (by positivity), ← zpow_add₀ two_ne_zero]
  exact_mod_cast (Int.zpow_le_iff_le_log Nat.one_lt_two hx).mpr hlog

/-- The significand that a positive rational is rounded to: the number of units of its last
place, which may be one more than fits in 53 bits. -/
def IsSignificand (r : ℕ) (x : ℚ) : Prop := IsNearest r (x / 2 ^ unitExponent x)

namespace IsSignificand

theorem le_pow (hx : 0 < x) (h : IsSignificand r x) : r ≤ 2 ^ 53 := by
  have hle : x / 2 ^ unitExponent x ≤ ((2 ^ 53 : ℕ) : ℤ) := by
    push_cast
    exact_mod_cast (div_unit_lt hx).le
  exact_mod_cast h.le_intCast hle

theorem pow_le (hx : 0 < x) (h : IsSignificand r x) (hmin : minExponent < unitExponent x) :
    2 ^ 52 ≤ r := by
  have hle : ((2 ^ 52 : ℕ) : ℤ) ≤ x / 2 ^ unitExponent x := by
    push_cast
    exact_mod_cast le_div_unit hx hmin
  exact_mod_cast h.intCast_le hle

theorem le_of_unitExponent_eq (hxy : x ≤ y) (heq : unitExponent x = unitExponent y)
    (h : IsSignificand r x) (h' : IsSignificand r' y) : r ≤ r' := by
  unfold IsSignificand at h h'
  rw [heq] at h
  exact_mod_cast h.le_of_le h' (by gcongr)

/-- Rounding keeps the order. If the units differ, a power of two is between the numbers. -/
theorem mul_unit_le (hx : 0 < x) (hxy : x ≤ y) (h : IsSignificand r x) (h' : IsSignificand r' y) :
    (r : ℚ) * 2 ^ unitExponent x ≤ r' * 2 ^ unitExponent y := by
  obtain heq | hlt := (unitExponent_le hx hxy).eq_or_lt
  · have hle := h.le_of_unitExponent_eq hxy heq h'
    rw [heq]
    gcongr
  · have hmin : minExponent < unitExponent y := (minExponent_le_unitExponent x).trans_lt hlt
    have hhigh : (r : ℚ) ≤ 2 ^ (53 : ℤ) := by exact_mod_cast h.le_pow hx
    have hlow : (2 : ℚ) ^ (52 : ℤ) ≤ r' := by exact_mod_cast h'.pow_le (hx.trans_le hxy) hmin
    calc (r : ℚ) * 2 ^ unitExponent x ≤ 2 ^ (53 : ℤ) * 2 ^ unitExponent x := by gcongr
      _ = 2 ^ (52 : ℤ) * 2 ^ (unitExponent x + 1) := by
          rw [← zpow_add₀ two_ne_zero, ← zpow_add₀ two_ne_zero]
          congr 1
          omega
      _ ≤ r' * 2 ^ unitExponent y := by
          gcongr
          · exact one_le_two
          · exact hlt

end IsSignificand

def Fits (r : ℕ) (e : ℤ) : Prop := e ≤ maxExponent ∧ (r = Nat.pow 2 53 → e < maxExponent)

theorem Fits.of_le (hx : 0 < x) (hxy : x ≤ y) (h : IsSignificand r x) (h' : IsSignificand r' y)
    (hfits : Fits r' (unitExponent y)) : Fits r (unitExponent x) := by
  obtain ⟨hmax, hcarry⟩ := hfits
  obtain heq | hlt := (unitExponent_le hx hxy).eq_or_lt
  · refine ⟨heq ▸ hmax, fun hr => heq ▸ hcarry ?_⟩
    have hle := h.le_of_unitExponent_eq hxy heq h'
    exact le_antisymm (h'.le_pow (hx.trans_le hxy)) (hr ▸ hle)
  · exact ⟨(hlt.trans_le hmax).le, fun _ => hlt.trans_le hmax⟩

theorem pack_eq (s : Bool) (r : ℕ) (e : ℤ) :
    ∃ m e', pack s r e = (if maxExponent < e' then infinite s else finite s m e') ∧
      (m : ℚ) * 2 ^ e' = r * 2 ^ e ∧ (¬ maxExponent < e' ↔ Fits r e) := by
  by_cases hr : r = Nat.pow 2 53
  · refine ⟨Nat.pow 2 52, e + 1, by simp only [pack, if_pos hr], ?_, ?_⟩
    · rw [hr, zpow_add_one₀ two_ne_zero]
      push_cast
      ring
    · rw [not_lt, Int.add_one_le_iff]
      exact ⟨fun h => ⟨h.le, fun _ => h⟩, fun h => h.2 hr⟩
  · refine ⟨r, e, by simp only [pack, if_neg hr], rfl, ?_⟩
    rw [not_lt]
    exact ⟨fun h => ⟨h, fun h' => absurd h' hr⟩, fun h => h.1⟩

theorem value?_pack {s : Bool} :
    (pack s r e).value? = some x ↔ Fits r e ∧ (if s then -1 else 1) * ((r : ℚ) * 2 ^ e) = x := by
  obtain ⟨m, e', hpack, hvalue, hfits⟩ := pack_eq s r e
  rw [hpack, ← hfits, ← hvalue]
  by_cases he : maxExponent < e' <;> simp [he, value?]

/-- A positive quotient is rounded to a whole number of units of the last place. -/
theorem ofRatio_eq_pack (s : Bool) (hnum : 0 < num) (hden : 0 < den) :
    ∃ r : ℕ, ofRatio s num den = pack s r (unitExponent (num / den)) ∧
      IsSignificand r (num / den) := by
  have hexp : max (leadingPower num den - 52) minExponent = unitExponent (num / den) := by
    rw [leadingPower_eq_log hnum hden, unitExponent]
  unfold IsSignificand
  generalize unitExponent (num / den) = e at hexp ⊢
  have hpos : 0 < den * (ratio 1 e).1 := Nat.mul_pos hden (ratio_fst_pos Nat.one_pos e)
  refine ⟨roundHalfEven (num * (ratio 1 e).2) (den * (ratio 1 e).1), ?_, ?_⟩
  · rw [ofRatio, if_neg hnum.ne', hexp]
  · have hunits : ((num * (ratio 1 e).2 : ℕ) : ℚ) / (den * (ratio 1 e).1 : ℕ) =
        (num : ℚ) / den / 2 ^ e := by
      rw [Nat.cast_mul, Nat.cast_mul, mul_div_mul_comm, ← inv_div ((ratio 1 e).1 : ℚ), ratio_div,
        Nat.cast_one, one_mul, div_eq_mul_inv (_ / _)]
    exact hunits ▸ isNearest_roundHalfEven _ hpos

/-- A quotient is rounded to a number without a sign, unless it is above the format's range. -/
theorem ofRatio_cases (num : ℕ) (hden : 0 < den) :
    (∃ m e, ofRatio false num den = finite false m e) ∨ ofRatio false num den = infinite false := by
  rcases Nat.eq_zero_or_pos num with rfl | hnum
  · exact .inl ⟨0, minExponent, rfl⟩
  · obtain ⟨r, hround, -⟩ := ofRatio_eq_pack false hnum hden
    obtain ⟨m, e, hpack, -⟩ := pack_eq false r (unitExponent (num / den))
    rw [hround, hpack]
    split
    · exact .inr rfl
    · exact .inl ⟨m, e, rfl⟩

theorem finite_of_value?_ofRatio (hden : 0 < den) (h : (ofRatio false num den).value? = some x) :
    ∃ m e, ofRatio false num den = finite false m e ∧ (m : ℚ) * 2 ^ e = x := by
  obtain ⟨m, e, heq⟩ | heq := ofRatio_cases num hden
  · exact ⟨m, e, heq, by simpa [heq, value?] using h⟩
  · rw [heq] at h
    cases h

theorem nonneg_of_value?_ofRatio (hden : 0 < den) (h : (ofRatio false num den).value? = some x) :
    0 ≤ x := by
  obtain ⟨m, e, -, rfl⟩ := finite_of_value?_ofRatio hden h
  positivity

/-- The quotients that are rounded to a finite number are rounded in order. -/
theorem ofRatio_mono (hden : 0 < den) (hden' : 0 < den')
    (hle : (num : ℚ) / den ≤ num' / den') (h : (ofRatio false num' den').value? = some y) :
    ∃ x, (ofRatio false num den).value? = some x ∧ x ≤ y := by
  rcases Nat.eq_zero_or_pos num with rfl | hnum
  · exact ⟨0, by simp [ofRatio, zero, value?], nonneg_of_value?_ofRatio hden' h⟩
  have hpos : (0 : ℚ) < num / den := by positivity
  have hnum' : 0 < num' := by
    have hquot := (div_pos_iff_of_pos_right (Nat.cast_pos.mpr hden')).mp (hpos.trans_le hle)
    exact_mod_cast hquot
  obtain ⟨r, hpack, hr⟩ := ofRatio_eq_pack false hnum hden
  obtain ⟨r', hpack', hr'⟩ := ofRatio_eq_pack false hnum' hden'
  rw [hpack', value?_pack] at h
  obtain ⟨hfits, rfl⟩ := h
  refine ⟨_, hpack ▸ value?_pack.mpr ⟨.of_le hpos hle hr hr' hfits, rfl⟩, ?_⟩
  simpa using hr.mul_unit_le hpos hle hr'

theorem value?_ofNat_of_canonical {n m : ℕ} (h : Canonical m e) (hfull : Nat.pow 2 52 ≤ m)
    (hvalue : (n : ℚ) = m * 2 ^ e) : (ofNat n).value? = some (n : ℚ) := by
  rw [ofNat, ofRatio_exact false Nat.one_pos (by rwa [Nat.cast_one, div_one]) h hfull]
  simp [value?, hvalue]

theorem value?_ofNat_two_pow {k : ℕ} (hk : k < 1024) :
    (ofNat (2 ^ k)).value? = some ((2 ^ k : ℕ) : ℚ) := by
  refine value?_ofNat_of_canonical (m := Nat.pow 2 52) (e := (k : ℤ) - 52)
    ⟨by decide, by unfold minExponent; omega, by unfold maxExponent; omega, .inl le_rfl⟩ le_rfl ?_
  rw [Nat.pow_eq, Nat.cast_pow, Nat.cast_pow, Nat.cast_ofNat, ← zpow_natCast, ← zpow_natCast,
    ← zpow_add₀ two_ne_zero]
  congr 1
  omega

theorem value?_ofNat {n : ℕ} (h : n < 2 ^ 53) : (ofNat n).value? = some (n : ℚ) := by
  rcases Nat.eq_zero_or_pos n with rfl | hn
  · simp [ofNat, ofRatio, zero, value?]
  · obtain ⟨m, e, heq, -, hvalue⟩ := ofNat_exact hn h
    simp [heq, value?, hvalue]

theorem exceeds_iff {a : Binary64} (h : a.value? = some x) (n : ℕ) :
    a.exceeds n = true ↔ (n : ℚ) < x := by
  match a, h with
  | finite true m e, h =>
    obtain rfl := Option.some.inj h
    have hle : (if true then -1 else 1) * ((m : ℚ) * 2 ^ e) ≤ n := by
      rw [if_pos rfl, neg_one_mul, neg_le]
      exact (neg_nonpos.mpr n.cast_nonneg).trans (by positivity)
    exact iff_of_false Bool.false_ne_true (not_lt.mpr hle)
  | finite false m e, h =>
    obtain rfl := Option.some.inj h
    have hpos : (0 : ℚ) < (ratio m e).2 := by exact_mod_cast ratio_snd_pos m e
    rw [if_neg Bool.false_ne_true, one_mul, ← ratio_div, lt_div_iff₀ hpos]
    simp only [exceeds, decide_eq_true_eq]
    exact_mod_cast Iff.rfl

theorem isNotPositive_iff {a : Binary64} (h : a.value? = some x) :
    a.isNotPositive = true ↔ x ≤ 0 := by
  match a, h with
  | finite s m e, h =>
    obtain rfl := Option.some.inj h
    have hpow : (0 : ℚ) < 2 ^ e := by positivity
    cases s with
    | false =>
      rw [if_neg Bool.false_ne_true, one_mul, ← not_lt, mul_pos_iff_of_pos_right hpow, not_lt,
        Nat.cast_nonpos]
      simp [isNotPositive]
    | true => simp [isNotPositive, hpow]

/-- Natural numbers are rounded in order, up to the greatest that is rounded to a finite one. -/
theorem ofNat_mono {n n' : ℕ} (hle : n ≤ n') (h : (ofNat n').value? = some y) :
    ∃ x, (ofNat n).value? = some x ∧ x ≤ y :=
  ofRatio_mono Nat.one_pos Nat.one_pos (by gcongr) h

end

end Binary64

/-! ## Decimals -/

section

open Binary64

variable {s : Bool} {m k : ℕ} {e : ℤ} {x y : Binary64}

/-- The powers of ten that a decimal is divided by are finite and at least one. -/
theorem ofNat_ten_pow (hk : k ≤ greatestPower) :
    ∃ m e, ofNat (Nat.pow 10 k) = finite false m e ∧ 1 ≤ (m : ℚ) * 2 ^ e := by
  have hgreatest : (ofNat ((2 ^ 53 - 1) * 2 ^ 971)).value? =
      some (((2 ^ 53 - 1) * 2 ^ 971 : ℕ) : ℚ) :=
    value?_ofNat_of_canonical (m := 2 ^ 53 - 1) (e := (971 : ℕ))
      ⟨by decide, by decide, by decide, .inl (by decide)⟩ (by decide)
      (by rw [Nat.cast_mul, Nat.cast_pow, Nat.cast_two, zpow_natCast])
  have hle : Nat.pow 10 k ≤ (2 ^ 53 - 1) * 2 ^ 971 :=
    le_trans (Nat.pow_le_pow_right (by decide) hk) (by decide +kernel)
  obtain ⟨x, hx, -⟩ := ofNat_mono hle hgreatest
  obtain ⟨one, hone, hbelow⟩ := ofNat_mono (Nat.pow_pos (by decide)) hx
  obtain ⟨m, e, hform, hvalue⟩ := finite_of_value?_ofRatio Nat.one_pos hx
  refine ⟨m, e, hform, ?_⟩
  rw [value?_ofNat (by decide)] at hone
  obtain rfl := Option.some.inj hone
  rw [hvalue]
  exact_mod_cast hbelow

theorem divRatio_le {m' : ℕ} {e' : ℤ} {limit : ℕ} {y : ℚ} (hone : 1 ≤ (m' : ℚ) * 2 ^ e')
    (hle : (m : ℚ) * 2 ^ e ≤ limit) (hlimit : (ofNat limit).value? = some y) :
    ∃ m'' e'', divRatio m e m' e' = finite false m'' e'' ∧ (m'' : ℚ) * 2 ^ e'' ≤ y := by
  have hm' : 0 < m' := by
    rcases Nat.eq_zero_or_pos m' with rfl | hm'
    · norm_num at hone
    · exact hm'
  have hden : 0 < (ratio m e).2 * (ratio m' e').1 :=
    Nat.mul_pos (ratio_snd_pos m e) (ratio_fst_pos hm' e')
  have hquot : (((ratio m e).1 * (ratio m' e').2 : ℕ) : ℚ) /
      ((ratio m e).2 * (ratio m' e').1 : ℕ) ≤ limit / (1 : ℕ) := by
    rw [Nat.cast_mul, Nat.cast_mul, mul_div_mul_comm, ratio_div, ← inv_div, ratio_div, Nat.cast_one,
      div_one, ← div_eq_mul_inv]
    exact (div_le_self (by positivity) hone).trans hle
  obtain ⟨v, hv, hvle⟩ := ofRatio_mono hden Nat.one_pos hquot hlimit
  obtain ⟨m'', e'', hform, rfl⟩ := finite_of_value?_ofRatio hden hv
  exact ⟨m'', e'', by rw [divRatio_eq, hform], hvle⟩

/-- Division by a power of ten keeps a number below the limit of 64 bits. -/
theorem divPower_finite (hle : (m : ℚ) * 2 ^ e ≤ (2 ^ 64 : ℕ)) :
    ∃ s' m' e', divPower (finite s m e) k = finite s' m' e' := by
  induction k using Nat.strong_induction_on generalizing s m e with
  | _ k ih =>
    obtain ⟨m₁, e₁, hten, hone⟩ := ofNat_ten_pow (Nat.min_le_right k greatestPower)
    obtain ⟨m₂, e₂, hquot, hle₂⟩ := divRatio_le hone hle (value?_ofNat_two_pow (by decide))
    rw [divPower]
    simp only [hten, hquot]
    split
    · exact ⟨s, 0, minExponent, rfl⟩
    · split
      · next hk => exact ih _ (Nat.sub_lt (by omega) (by decide)) hle₂
      · exact ⟨false, m₂, e₂, rfl⟩

theorem mulRatio_eq (m : ℕ) (e : ℤ) (m' : ℕ) (e' : ℤ) :
    mulRatio m e m' e' =
      ofRatio false ((ratio m e).1 * (ratio m' e').1) ((ratio m e).2 * (ratio m' e').2) := rfl

theorem mulPower?_finite (h : mulPower? (finite s m e) k = some x) :
    ∃ s' m' e', x = finite s' m' e' := by
  unfold mulPower? at h
  simp only at h
  split at h
  · exact ⟨s, 0, minExponent, (Option.some.inj h).symm⟩
  · split at h
    · cases h
    · split at h
      · next s₁ m₁ e₁ hten =>
        have hden := Nat.mul_pos (ratio_snd_pos m e) (ratio_snd_pos m₁ e₁)
        have hcases := ofRatio_cases ((ratio m e).1 * (ratio m₁ e₁).1) hden
        rw [← mulRatio_eq] at hcases
        obtain ⟨m₂, e₂, hprod⟩ | hprod := hcases
        · rw [hprod] at h
          exact ⟨false, m₂, e₂, (Option.some.inj h).symm⟩
        · rw [hprod] at h
          cases h
      · cases h

theorem absorb_lt {n : ℕ} {ds : List ℕ} (h : n < word64Limit) : (absorb n ds).1 < word64Limit := by
  induction ds generalizing n with
  | nil => exact h
  | cons d ds ih =>
    rw [absorb]
    split
    · next hlt => exact ih hlt
    · exact h

theorem value?_of_ofDecimal? {negative : Bool} {whole fraction : List ℕ} {power : ℤ}
    (h : ofDecimal? negative whole fraction power = some x) : ∃ v, x.value? = some v := by
  have hwhole : (absorb 0 whole).1 < word64Limit := absorb_lt (by decide)
  have hdigits : (absorb (absorb 0 whole).1 fraction).1 < word64Limit := absorb_lt hwhole
  obtain ⟨v, hv, hle⟩ := ofNat_mono hdigits.le (value?_ofNat_two_pow (k := 64) (by decide))
  obtain ⟨m, e, hform, rfl⟩ := finite_of_value?_ofRatio Nat.one_pos hv
  simp only [ofDecimal?, Option.map_eq_some_iff] at h
  obtain ⟨y, hmagnitude, rfl⟩ := h
  have hfinite : ∃ s' m' e', y = finite s' m' e' := by
    rw [ofNat, hform] at hmagnitude
    split at hmagnitude
    · exact mulPower?_finite hmagnitude
    · obtain rfl := Option.some.inj hmagnitude
      exact divPower_finite hle
  obtain ⟨s', m', e', rfl⟩ := hfinite
  split
  · exact ⟨_, rfl⟩
  · exact ⟨_, rfl⟩

end

end FeedDesk.Number
