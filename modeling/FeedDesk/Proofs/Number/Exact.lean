import FeedDesk.Number.Shortest
import Mathlib.Algebra.Order.Field.Power
import Mathlib.Algebra.Order.Floor.Ring
import Mathlib.Data.Int.Log
import Mathlib.Data.Rat.Floor
import Mathlib.Tactic.FieldSimp
import Mathlib.Tactic.Positivity

/-!
# Exact values of binary64 numbers

A significand and an exponent denote `m · 2 ^ e`. Each number of the format has one canonical
form, and a quotient of natural numbers that is the value of a canonical form with a full
significand is rounded to this form.
-/
namespace FeedDesk.Number

/-! ## Leading powers and rounding -/

theorem log_eq_of_bounds {b : ℕ} (hb : 1 < b) {r : ℚ} {k : ℤ} (hlow : (b : ℚ) ^ k ≤ r)
    (hhigh : r < (b : ℚ) ^ (k + 1)) : Int.log b r = k := by
  have hpos : 0 < r := lt_of_lt_of_le (by positivity) hlow
  have hle := (Int.zpow_le_iff_le_log hb hpos).mp hlow
  have hlt := (Int.lt_zpow_iff_log_lt hb hpos).mp hhigh
  omega

/-- The leading power of a quotient, from the leading powers of its parts. -/
theorem log_div {b num den : ℕ} (hb : 1 < b) (hnum : 0 < num) (hden : 0 < den) :
    Int.log b ((num : ℚ) / den) =
      if (den : ℚ) * (b : ℚ) ^ ((Nat.log b num : ℤ) - Nat.log b den) ≤ num
      then (Nat.log b num : ℤ) - Nat.log b den else (Nat.log b num : ℤ) - Nat.log b den - 1 := by
  have hbase : (0 : ℚ) < b := by positivity
  have hdenpos : (0 : ℚ) < den := by positivity
  have hquot : (0 : ℚ) < (num : ℚ) / den := by positivity
  have hnumlow : (b : ℚ) ^ (Nat.log b num : ℤ) ≤ num := by
    exact_mod_cast Nat.pow_log_le_self b hnum.ne'
  have hnumhigh : (num : ℚ) < (b : ℚ) ^ ((Nat.log b num : ℤ) + 1) := by
    exact_mod_cast Nat.lt_pow_succ_log_self hb num
  have hdenlow : (b : ℚ) ^ (Nat.log b den : ℤ) ≤ den := by
    exact_mod_cast Nat.pow_log_le_self b hden.ne'
  have hdenhigh : (den : ℚ) < (b : ℚ) ^ ((Nat.log b den : ℤ) + 1) := by
    exact_mod_cast Nat.lt_pow_succ_log_self hb den
  generalize hk : (Nat.log b num : ℤ) - Nat.log b den = k
  have hnumlog : (Nat.log b num : ℤ) = k + Nat.log b den := by omega
  rw [hnumlog] at hnumlow hnumhigh
  have hhigh : Int.log b ((num : ℚ) / den) < k + 1 := by
    rw [← Int.lt_zpow_iff_log_lt hb hquot, div_lt_iff₀ hdenpos]
    calc (num : ℚ) < (b : ℚ) ^ (k + 1) * (b : ℚ) ^ (Nat.log b den : ℤ) := by
          rwa [← zpow_add₀ hbase.ne', show k + 1 + Nat.log b den = k + Nat.log b den + 1 by omega]
      _ ≤ (b : ℚ) ^ (k + 1) * den := by gcongr
  have hlow : k - 1 ≤ Int.log b ((num : ℚ) / den) := by
    rw [← Int.zpow_le_iff_le_log hb hquot, le_div_iff₀ hdenpos]
    calc (b : ℚ) ^ (k - 1) * den
        ≤ (b : ℚ) ^ (k - 1) * (b : ℚ) ^ ((Nat.log b den : ℤ) + 1) := by gcongr
      _ = (b : ℚ) ^ (k + Nat.log b den) := by
          rw [← zpow_add₀ hbase.ne', show k - 1 + ((Nat.log b den : ℤ) + 1) = k + Nat.log b den
            by omega]
      _ ≤ num := hnumlow
  have hmid : (den : ℚ) * (b : ℚ) ^ k ≤ num ↔ k ≤ Int.log b ((num : ℚ) / den) := by
    rw [← Int.zpow_le_iff_le_log hb hquot, le_div_iff₀ hdenpos, mul_comm]
  rw [if_congr hmid rfl rfl]
  split <;> omega

theorem roundHalfEven_mul {d : ℕ} (hd : 0 < d) (m : ℕ) : roundHalfEven (m * d) d = m := by
  simp [roundHalfEven, Nat.mul_div_cancel m hd, hd]

namespace Binary64

/-! ## Values -/

theorem ratio_snd_pos (m : ℕ) (e : ℤ) : 0 < (ratio m e).2 := by
  unfold ratio
  split
  · exact Nat.one_pos
  · exact Nat.pow_pos Nat.two_pos

theorem ratio_fst_pos {m : ℕ} (h : 0 < m) (e : ℤ) : 0 < (ratio m e).1 := by
  unfold ratio
  split
  · exact Nat.mul_pos h (Nat.pow_pos Nat.two_pos)
  · exact h

theorem ratio_div (m : ℕ) (e : ℤ) : ((ratio m e).1 : ℚ) / (ratio m e).2 = m * 2 ^ e := by
  unfold ratio
  split
  · next h =>
    obtain ⟨k, rfl⟩ := Int.eq_ofNat_of_zero_le h
    simp
  · next h =>
    obtain ⟨k, hk⟩ := Int.eq_ofNat_of_zero_le (show 0 ≤ -e by omega)
    obtain rfl : e = -(k : ℤ) := by omega
    simp [div_eq_mul_inv]

/-- The product of a quotient's lower part and its value is its upper part. -/
theorem ratio_mul (m : ℕ) (e : ℤ) : ((ratio m e).2 : ℚ) * (m * 2 ^ e) = (ratio m e).1 := by
  have hpos : (0 : ℚ) < (ratio m e).2 := by exact_mod_cast ratio_snd_pos m e
  rw [← ratio_div]
  field_simp

theorem leadingPower_eq_log {num den : ℕ} (hnum : 0 < num) (hden : 0 < den) :
    leadingPower num den = Int.log 2 ((num : ℚ) / den) := by
  rw [log_div Nat.one_lt_two hnum hden]
  simp only [leadingPower, Nat.log2_eq_log_two]
  generalize (Nat.log 2 num : ℤ) - Nat.log 2 den = k
  have hpos : (0 : ℚ) < (ratio den k).2 := by exact_mod_cast ratio_snd_pos den k
  refine if_congr ?_ rfl rfl
  rw [← Nat.cast_le (α := ℚ), Nat.cast_mul, ← div_le_iff₀ hpos, ratio_div]
  rfl

/-! ## Canonical forms -/

/-- The one form that the format has for each of its finite numbers: a full significand, or the
least exponent. -/
structure Canonical (m : ℕ) (e : ℤ) : Prop where
  significand_lt : m < Nat.pow 2 53
  minExponent_le : minExponent ≤ e
  le_maxExponent : e ≤ maxExponent
  full : Nat.pow 2 52 ≤ m ∨ e = minExponent

section

variable {num den m : ℕ} {e : ℤ}

theorem leadingPower_full (hnum : 0 < num) (hden : 0 < den) (hvalue : (num : ℚ) / den = m * 2 ^ e)
    (hfull : Nat.pow 2 52 ≤ m) (hlt : m < Nat.pow 2 53) : leadingPower num den = 52 + e := by
  rw [leadingPower_eq_log hnum hden, hvalue]
  refine log_eq_of_bounds Nat.one_lt_two ?_ ?_
  · have h : (2 : ℚ) ^ (52 : ℤ) ≤ m := by exact_mod_cast hfull
    rw [Nat.cast_ofNat, zpow_add₀ two_ne_zero]
    gcongr
  · have h : (m : ℚ) < 2 ^ (53 : ℤ) := by exact_mod_cast hlt
    rw [Nat.cast_ofNat, show 52 + e + 1 = 53 + e by omega, zpow_add₀ two_ne_zero]
    gcongr

/-- The quotient in units of `2 ^ e`. -/
theorem units_of_value (hden : 0 < den) (hvalue : (num : ℚ) / den = m * 2 ^ e) :
    num * (ratio 1 e).2 = m * (den * (ratio 1 e).1) := by
  have hone := ratio_mul 1 e
  rw [div_eq_iff (Nat.cast_ne_zero.mpr hden.ne')] at hvalue
  have h : (num : ℚ) * (ratio 1 e).2 = m * (den * (ratio 1 e).1) := by
    rw [hvalue, ← hone]
    push_cast
    ring
  exact_mod_cast h

/-- A quotient that is the value of a form with a full significand is rounded to this form. -/
theorem ofRatio_exact (s : Bool) (hden : 0 < den) (hvalue : (num : ℚ) / den = m * 2 ^ e)
    (h : Canonical m e) (hfull : Nat.pow 2 52 ≤ m) :
    ofRatio s num den = .finite s m e := by
  obtain ⟨hlt, hlow, hhigh, -⟩ := h
  have hm : 0 < m := lt_of_lt_of_le (Nat.pow_pos Nat.two_pos) hfull
  have hnum : 0 < num := by
    have hquot : (0 : ℚ) < (num : ℚ) / den := by rw [hvalue]; positivity
    exact_mod_cast (div_pos_iff_of_pos_right (Nat.cast_pos.mpr hden)).mp hquot
  have hexp : max (leadingPower num den - 52) minExponent = e := by
    rw [leadingPower_full hnum hden hvalue hfull hlt]
    omega
  have hpos : 0 < den * (ratio 1 e).1 := Nat.mul_pos hden (ratio_fst_pos Nat.one_pos e)
  rw [ofRatio, if_neg hnum.ne', hexp]
  simp only [units_of_value hden hvalue, roundHalfEven_mul hpos, pack, if_neg hlt.ne,
    if_neg (not_lt.mpr hhigh)]

end

end Binary64

end FeedDesk.Number
