import FeedDesk.Number.FromDecimal
import FeedDesk.Proofs.Number.Digits
import FeedDesk.Proofs.Number.Exact
import Mathlib.Tactic.Linarith

/-!
# Whole numbers of the binary64 format

Near a whole number the format is finer than the whole numbers are, up to a limit. So the
shortest digits of a whole number denote it exactly, and every step of the quick rule for reading
these digits is exact as well.
-/
namespace FeedDesk.Number

/-! ## Numbers that read back -/

namespace ReadingInterval

variable {num den m : ℕ} {e : ℤ}

/-- The bounds are counted in quarters of a unit of the last place. -/
theorem quarter (e : ℤ) : (2 : ℚ) ^ e = 4 * 2 ^ (e - 2) := by
  rw [show e = 2 + (e - 2) by omega, zpow_add₀ two_ne_zero]
  norm_num

theorem low_bounds (hm : 0 < m) (e : ℤ) :
    m * 2 ^ e - 2 ^ e / 2 ≤ ((of m e).low.1 : ℚ) / (of m e).low.2 ∧
      ((of m e).low.1 : ℚ) / (of m e).low.2 < m * 2 ^ e := by
  have hstep : (0 : ℚ) < 2 ^ (e - 2) := by positivity
  simp only [of, Binary64.ratio_div, quarter e]
  generalize (m == Nat.pow 2 52 && decide (Binary64.minExponent < e)) = narrow
  obtain ⟨hlow, hhigh⟩ : 4 * m ≤ (4 * m - if narrow = true then 1 else 2) + 2 ∧
      (4 * m - if narrow = true then 1 else 2) < 4 * m := by split <;> omega
  have hlow' := mul_le_mul_of_nonneg_right (Nat.cast_le (α := ℚ).mpr hlow) hstep.le
  have hhigh' := mul_lt_mul_of_pos_right (Nat.cast_lt (α := ℚ).mpr hhigh) hstep
  push_cast at hlow' hhigh' ⊢
  constructor <;> linarith

theorem high_eq (m : ℕ) (e : ℤ) :
    ((of m e).high.1 : ℚ) / (of m e).high.2 = m * 2 ^ e + 2 ^ e / 2 := by
  simp only [of, Binary64.ratio_div, quarter e]
  push_cast
  ring

theorem bounds_of_holds (hden : 0 < den) (h : (of m e).holds num den = true) :
    ((of m e).low.1 : ℚ) / (of m e).low.2 ≤ num / den ∧
      (num : ℚ) / den ≤ (of m e).high.1 / (of m e).high.2 := by
  have hdenpos : (0 : ℚ) < den := by exact_mod_cast hden
  rw [div_le_div_iff₀ (by exact_mod_cast Binary64.ratio_snd_pos _ _) hdenpos,
    div_le_div_iff₀ hdenpos (by exact_mod_cast Binary64.ratio_snd_pos _ _)]
  unfold holds at h
  split at h <;> simp only [Bool.and_eq_true, decide_eq_true_eq] at h
  · exact_mod_cast h
  · exact_mod_cast And.intro h.1.le h.2.le

theorem holds_of_bounds (hden : 0 < den)
    (hlow : ((of m e).low.1 : ℚ) / (of m e).low.2 < num / den)
    (hhigh : (num : ℚ) / den < (of m e).high.1 / (of m e).high.2) :
    (of m e).holds num den = true := by
  have hdenpos : (0 : ℚ) < den := by exact_mod_cast hden
  rw [div_lt_div_iff₀ (by exact_mod_cast Binary64.ratio_snd_pos _ _) hdenpos] at hlow
  rw [div_lt_div_iff₀ hdenpos (by exact_mod_cast Binary64.ratio_snd_pos _ _)] at hhigh
  norm_cast at hlow hhigh
  unfold holds
  split <;> simp only [Bool.and_eq_true, decide_eq_true_eq]
  · exact ⟨hlow.le, hhigh.le⟩
  · exact ⟨hlow, hhigh⟩

/-- What reads back is off by half a unit of the last place at most. -/
theorem le_of_holds (hm : 0 < m) (hden : 0 < den) (h : (of m e).holds num den = true) :
    |(num : ℚ) / den - m * 2 ^ e| ≤ 2 ^ e / 2 := by
  obtain ⟨hlow, hhigh⟩ := bounds_of_holds hden h
  have hleast := (low_bounds hm e).1
  rw [high_eq] at hhigh
  rw [abs_le]
  constructor <;> linarith

theorem holds_self (hm : 0 < m) (hden : 0 < den) (h : (num : ℚ) / den = m * 2 ^ e) :
    (of m e).holds num den = true := by
  have hunit : (0 : ℚ) < 2 ^ e := by positivity
  refine holds_of_bounds hden ?_ ?_
  · rw [h]
    exact (low_bounds hm e).2
  · rw [h, high_eq]
    linarith

end ReadingInterval

/-! ## The search for the shortest digits -/

theorem leadingDecimal_eq_log {num den : ℕ} (hnum : 0 < num) (hden : 0 < den) :
    leadingDecimal num den = Int.log 10 ((num : ℚ) / den) := by
  rw [log_div (by decide) hnum hden]
  simp only [leadingDecimal, length_toDigits hnum, length_toDigits hden]
  rw [show ((Nat.log 10 num + 1 : ℕ) : ℤ) - (Nat.log 10 den + 1 : ℕ) =
    (Nat.log 10 num : ℤ) - Nat.log 10 den by omega]
  generalize (Nat.log 10 num : ℤ) - Nat.log 10 den = k
  split
  · next h =>
    obtain ⟨k, rfl⟩ := Int.eq_ofNat_of_zero_le h
    refine if_congr ?_ rfl rfl
    simp only [Int.toNat_natCast, Nat.pow_eq, zpow_natCast, Nat.cast_ofNat]
    exact_mod_cast Iff.rfl
  · next h =>
    obtain ⟨l, hl⟩ := Int.eq_ofNat_of_zero_le (show 0 ≤ -k by omega)
    obtain rfl : k = -(l : ℤ) := by omega
    refine if_congr ?_ rfl rfl
    have hpos : (0 : ℚ) < 10 ^ l := by positivity
    simp only [neg_neg, Int.toNat_natCast, Nat.pow_eq, zpow_neg, zpow_natCast, Nat.cast_ofNat]
    rw [← div_eq_mul_inv, div_le_iff₀ hpos]
    exact_mod_cast Iff.rfl

theorem pointOnGrid_holds {i : ReadingInterval} {num den d : ℕ} {power : ℤ}
    (h : pointOnGrid i num den power = some d) :
    i.holds (gridPoint d power).1 (gridPoint d power).2 = true := by
  simp only [pointOnGrid] at h
  generalize roundHalfEven _ _ = near at h
  generalize (if near = _ then _ else _) = far at h
  split at h
  · next hnear =>
    obtain rfl := Option.some.inj h
    exact hnear
  · split at h
    · next hfar =>
      obtain rfl := Option.some.inj h
      exact hfar
    · cases h

/-- A number that is on the grid of step one is found there. -/
theorem pointOnGrid_zero {i : ReadingInterval} {n den : ℕ} (hden : 0 < den)
    (h : i.holds n 1 = true) : pointOnGrid i (n * den) den 0 = some n := by
  simp [pointOnGrid, gridPoint, roundHalfEven_mul hden, h]

/-- If one whole number only reads back, then the search finds its digits, at the latest on the
grid of step one. -/
theorem searchGrids_whole {i : ReadingInterval} {n den : ℕ} (hden : 0 < den)
    (hself : i.holds n 1 = true) (honly : ∀ d, i.holds d 1 = true → d = n) (fuel power : ℕ)
    (hfuel : power < fuel) :
    ∃ d q : ℕ, searchGrids i (n * den) den fuel power = (d, (q : ℤ)) ∧ d * 10 ^ q = n := by
  induction fuel generalizing power with
  | zero => omega
  | succ fuel ih =>
    unfold searchGrids
    split
    · next d hd =>
      have hholds := pointOnGrid_holds hd
      simp only [gridPoint, Int.natCast_nonneg, if_true, Int.toNat_natCast, Nat.pow_eq] at hholds
      exact ⟨d, power, rfl, honly _ hholds⟩
    · next hnone =>
      cases power with
      | zero =>
        rw [Nat.cast_zero, pointOnGrid_zero hden hself] at hnone
        cases hnone
      | succ power =>
        rw [show ((power + 1 : ℕ) : ℤ) - 1 = power by omega]
        exact ih power (by omega)

/-! ## Whole numbers -/

namespace Binary64

/-- The number is a whole number, of a magnitude of at most `limit`. -/
def IsWhole (limit : ℕ) : Binary64 → Prop
  | finite _ m e => Canonical m e ∧ ∃ n ≤ limit, (m : ℚ) * 2 ^ e = n
  | infinite _ => False
  | nan => False

theorem isWhole_zero (negative : Bool) (limit : ℕ) : (zero negative).IsWhole limit :=
  ⟨⟨by decide, by decide, by decide, .inr rfl⟩, 0, Nat.zero_le limit, by simp⟩

variable {m n : ℕ} {e : ℤ}

/-- The canonical form of a whole number other than zero, of a magnitude for which the format is
finer than eighths. -/
structure WholeForm (m : ℕ) (e : ℤ) (n : ℕ) : Prop extends Canonical m e where
  pos : 0 < n
  value : (m : ℚ) * 2 ^ e = n
  le_limit : n ≤ 2 ^ 49

namespace WholeForm

theorem full_significand (h : WholeForm m e n) : Nat.pow 2 52 ≤ m := by
  refine h.full.resolve_right fun he => ?_
  have hm : (m : ℚ) < 2 ^ (53 : ℤ) := by exact_mod_cast h.significand_lt
  have hpow : (2 : ℚ) ^ (0 : ℤ) < 2 ^ (53 + e) := by
    calc (2 : ℚ) ^ (0 : ℤ) ≤ m * 2 ^ e := by
          rw [h.value, zpow_zero]
          exact_mod_cast h.pos
      _ < 2 ^ (53 : ℤ) * 2 ^ e := by gcongr
      _ = 2 ^ (53 + e) := (zpow_add₀ two_ne_zero _ _).symm
  have hlt := (zpow_lt_zpow_iff_right₀ one_lt_two).mp hpow
  rw [he, minExponent] at hlt
  omega

theorem significand_pos (h : WholeForm m e n) : 0 < m :=
  lt_of_lt_of_le (Nat.pow_pos Nat.two_pos) h.full_significand

theorem exponent_le (h : WholeForm m e n) : e ≤ -3 := by
  have hfull : (2 : ℚ) ^ (52 : ℤ) ≤ m := by exact_mod_cast h.full_significand
  have hn : (n : ℚ) ≤ 2 ^ (49 : ℤ) := by exact_mod_cast h.le_limit
  have hpow : (2 : ℚ) ^ (52 + e) ≤ 2 ^ (49 : ℤ) := by
    calc (2 : ℚ) ^ (52 + e) = 2 ^ (52 : ℤ) * 2 ^ e := zpow_add₀ two_ne_zero _ _
      _ ≤ m * 2 ^ e := by gcongr
      _ ≤ 2 ^ (49 : ℤ) := h.value ▸ hn
  have hle := (zpow_le_zpow_iff_right₀ one_lt_two).mp hpow
  omega

/-- The number is the only whole number that reads back as itself. -/
theorem holds_iff (h : WholeForm m e n) (d : ℕ) :
    (ReadingInterval.of m e).holds d 1 = true ↔ d = n := by
  constructor
  · intro hd
    have hnear := ReadingInterval.le_of_holds h.significand_pos Nat.one_pos hd
    have hsmall : (2 : ℚ) ^ e ≤ 2 ^ (-3 : ℤ) := zpow_le_zpow_right₀ one_le_two h.exponent_le
    rw [Nat.cast_one, div_one, h.value] at hnear
    have hlt : |(d : ℚ) - n| < 1 := by
      norm_num at hsmall
      linarith
    have hzero := Int.abs_lt_one_iff.mp (show |(d : ℤ) - n| < 1 by exact_mod_cast hlt)
    omega
  · rintro rfl
    exact ReadingInterval.holds_self h.significand_pos Nat.one_pos (by simpa using h.value.symm)

theorem shortest (h : WholeForm m e n) :
    ∃ d q : ℕ, Number.shortest m e = (d, (q : ℤ)) ∧ d * 10 ^ q = n := by
  have hden := ratio_snd_pos m e
  have hnum : (ratio m e).1 = n * (ratio m e).2 := by
    have hmul := ratio_mul m e
    rw [h.value, mul_comm] at hmul
    exact_mod_cast hmul.symm
  have hlead : leadingDecimal (ratio m e).1 (ratio m e).2 = Nat.log 10 n := by
    rw [leadingDecimal_eq_log (ratio_fst_pos h.significand_pos e) hden, ratio_div, h.value,
      Int.log_natCast]
  have hfuel : Nat.log 10 n < 16 :=
    (Nat.log_lt_iff_lt_pow (by decide) h.pos.ne').mpr (lt_of_le_of_lt h.le_limit (by norm_num))
  simp only [Number.shortest]
  rw [hlead, hnum]
  exact searchGrids_whole hden ((h.holds_iff n).mpr rfl) (fun d => (h.holds_iff d).mp) 16 _ hfuel

end WholeForm

/-! ## Reading whole numbers -/

/-- A natural number of at most 53 bits, shifted to a full significand. -/
theorem canonical_shift (hn : 0 < n) (hlt : n < 2 ^ 53) :
    Canonical (n * 2 ^ (52 - n.log2)) ((n.log2 : ℤ) - 52) ∧
      Nat.pow 2 52 ≤ n * 2 ^ (52 - n.log2) := by
  have hlog : n.log2 < 53 := (Nat.log2_lt hn.ne').mpr hlt
  have hfull : Nat.pow 2 52 ≤ n * 2 ^ (52 - n.log2) := by
    calc Nat.pow 2 52 = 2 ^ n.log2 * 2 ^ (52 - n.log2) := by
          rw [← Nat.pow_add, Nat.add_sub_cancel' (by omega), Nat.pow_eq]
      _ ≤ n * 2 ^ (52 - n.log2) := Nat.mul_le_mul_right _ (Nat.log2_self_le hn.ne')
  refine ⟨⟨?_, by unfold minExponent; omega, by unfold maxExponent; omega, .inl hfull⟩, hfull⟩
  calc n * 2 ^ (52 - n.log2)
      < 2 ^ (n.log2 + 1) * 2 ^ (52 - n.log2) :=
        Nat.mul_lt_mul_of_pos_right Nat.lt_log2_self (Nat.pow_pos Nat.two_pos)
    _ = Nat.pow 2 53 := by
        rw [← Nat.pow_add, show n.log2 + 1 + (52 - n.log2) = 53 by omega, Nat.pow_eq]

theorem ofNat_exact (hn : 0 < n) (hlt : n < 2 ^ 53) :
    ∃ m e, ofNat n = .finite false m e ∧ 0 < m ∧ (m : ℚ) * 2 ^ e = n := by
  obtain ⟨hcanonical, hfull⟩ := canonical_shift hn hlt
  have hlog : n.log2 < 53 := (Nat.log2_lt hn.ne').mpr hlt
  have hvalue : ((n * 2 ^ (52 - n.log2) : ℕ) : ℚ) * 2 ^ ((n.log2 : ℤ) - 52) = n := by
    rw [show (n.log2 : ℤ) - 52 = -((52 - n.log2 : ℕ) : ℤ) by omega, zpow_neg, zpow_natCast]
    push_cast
    field_simp
  have hpos : 0 < n * 2 ^ (52 - n.log2) := Nat.mul_pos hn (Nat.pow_pos Nat.two_pos)
  refine ⟨_, _, ofRatio_exact false Nat.one_pos ?_ hcanonical hfull, hpos, hvalue⟩
  rw [Nat.cast_one, div_one, hvalue]

theorem divRatio_eq (m : ℕ) (e : ℤ) (m' : ℕ) (e' : ℤ) :
    divRatio m e m' e' =
      ofRatio false ((ratio m e).1 * (ratio m' e').2) ((ratio m e).2 * (ratio m' e').1) := rfl

/-- The quotient of two numbers is exact if its value is a number with a full significand. -/
theorem divRatio_exact {m' m'' : ℕ} {e' e'' : ℤ} (hm' : 0 < m')
    (h : Canonical m'' e'') (hfull : Nat.pow 2 52 ≤ m'')
    (hvalue : (m : ℚ) * 2 ^ e = m'' * 2 ^ e'' * (m' * 2 ^ e')) :
    divRatio m e m' e' = .finite false m'' e'' := by
  have hpos : (0 : ℚ) < m' * 2 ^ e' := by positivity
  rw [divRatio_eq]
  refine ofRatio_exact false (Nat.mul_pos (ratio_snd_pos m e) (ratio_fst_pos hm' e')) ?_ h hfull
  rw [Nat.cast_mul, Nat.cast_mul, mul_div_mul_comm, ratio_div, hvalue, ← inv_div, ratio_div,
    mul_assoc, mul_inv_cancel₀ hpos.ne', mul_one]

end Binary64

theorem absorb_of_lt {start : ℕ} {ds : List ℕ} (h : ofDigits start ds < word64Limit) :
    absorb start ds = (ofDigits start ds, []) := by
  induction ds generalizing start with
  | nil => rfl
  | cons d ds ih =>
    rw [ofDigits_cons] at h ⊢
    rw [absorb, if_pos (lt_of_le_of_lt (le_ofDigits _ ds) h), ih h]

section

variable {m n : ℕ} {e : ℤ}

theorem divPower_ten (h : Binary64.WholeForm m e n) :
    divPower (Binary64.ofNat (10 * n)) 1 = .finite false m e := by
  have hn := h.pos
  have hlimit := h.le_limit
  obtain ⟨m₁, e₁, htimes, hm₁, hvalue₁⟩ := Binary64.ofNat_exact (n := 10 * n) (by omega) (by omega)
  obtain ⟨m₂, e₂, hten, hm₂, hvalue₂⟩ := Binary64.ofNat_exact (n := 10) (by decide) (by decide)
  rw [htimes, divPower]
  simp only [hm₁.ne', if_false, show Nat.pow 10 (min 1 greatestPower) = 10 by decide, hten,
    show ¬ greatestPower < 1 by decide]
  refine Binary64.divRatio_exact hm₂ h.toCanonical h.full_significand ?_
  rw [hvalue₁, hvalue₂, h.value]
  push_cast
  ring

theorem ofDecimal?_whole (negative : Bool) {ds : List ℕ} (h : Binary64.WholeForm m e n)
    (hds : ofDigits 0 ds = n) :
    ofDecimal? negative ds [0] 0 = some (.finite negative m e) := by
  have hlimit := h.le_limit
  have hwhole : absorb 0 ds = (n, []) := by
    rw [absorb_of_lt (by rw [hds, word64Limit, UInt64.size]; omega), hds]
  have hpoint : absorb n [0] = (10 * n, []) := by
    rw [absorb_of_lt (by simp only [ofDigits, List.foldl, word64Limit, UInt64.size]; omega)]
    rfl
  unfold ofDecimal?
  simp only [hwhole, hpoint]
  simp [divPower_ten h, Binary64.neg]
  cases negative <;> rfl

end

end FeedDesk.Number
