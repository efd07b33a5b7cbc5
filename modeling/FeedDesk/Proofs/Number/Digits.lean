import FeedDesk.Number.Decimal
import Mathlib.Data.Nat.Digits.Defs
import Mathlib.Data.Nat.Log
import Mathlib.Tactic.Ring

/-!
# Decimal digits

The digits of a number denote it and do not begin with a zero, unless the number is zero. Digits
and the characters they are written with determine each other.
-/
namespace FeedDesk.Number

/-! ## Digits and their characters -/

theorem digitValue_lt {c : Char} (h : c.isDigit = true) : digitValue c < 10 := by
  obtain ⟨-, hhigh⟩ := Char.isDigit_iff_toNat.mp h
  simp only [digitValue, Char.reduceToNat] at hhigh ⊢
  omega

theorem digitChar_digitValue {c : Char} (h : c.isDigit = true) : digitChar (digitValue c) = c := by
  obtain ⟨hlow, -⟩ := Char.isDigit_iff_toNat.mp h
  rw [digitChar, digitValue, Nat.add_sub_cancel' hlow, Char.ofNat_toNat]

theorem toNat_digitChar {d : Nat} (h : d < 10) : (digitChar d).toNat = '0'.toNat + d := by
  have hall : ∀ e < 10, (digitChar e).toNat = '0'.toNat + e := by decide
  exact hall d h

theorem isDigit_digitChar {d : Nat} (h : d < 10) : (digitChar d).isDigit = true := by
  rw [Char.isDigit_iff_toNat, toNat_digitChar h]
  simp only [Char.reduceToNat]
  omega

theorem digitValue_digitChar {d : Nat} (h : d < 10) : digitValue (digitChar d) = d := by
  rw [digitValue, toNat_digitChar h, Nat.add_sub_cancel_left]

theorem map_digitValue_digitChar {ds : List Nat} (h : ∀ d ∈ ds, d < 10) :
    (ds.map digitChar).map digitValue = ds := by
  rw [List.map_map]
  exact (List.map_congr_left fun d hd => digitValue_digitChar (h d hd)).trans (List.map_id _)

/-! ## The number that digits denote -/

theorem ofDigits_cons (start d : Nat) (ds : List Nat) :
    ofDigits start (d :: ds) = ofDigits (10 * start + d) ds := rfl

theorem ofDigits_append (start : Nat) (ds es : List Nat) :
    ofDigits start (ds ++ es) = ofDigits (ofDigits start ds) es :=
  List.foldl_append

theorem ofDigits_eq_mul_add (start : Nat) (ds : List Nat) :
    ofDigits start ds = start * 10 ^ ds.length + ofDigits 0 ds := by
  induction ds generalizing start with
  | nil => simp [ofDigits]
  | cons d ds ih =>
    rw [ofDigits_cons, ofDigits_cons, ih, ih (10 * 0 + d), List.length_cons]
    ring

theorem ofDigits_replicate_zero (start k : Nat) :
    ofDigits start (List.replicate k 0) = start * 10 ^ k := by
  induction k generalizing start with
  | zero => simp [ofDigits]
  | succ k ih =>
    rw [List.replicate_succ, ofDigits_cons, ih]
    ring

theorem le_ofDigits (start : Nat) (ds : List Nat) : start ≤ ofDigits start ds := by
  induction ds generalizing start with
  | nil => exact Nat.le_refl start
  | cons d ds ih =>
    rw [ofDigits_cons]
    exact Nat.le_trans (by omega) (ih (10 * start + d))

/-- Digits are their last zeros behind the others. -/
theorem exists_append_zeros (ds : List Nat) :
    ∃ k, ds = (ds.reverse.dropWhile (· == 0)).reverse ++ List.replicate k 0 := by
  have hzeros : (ds.reverse.takeWhile (· == 0)).reverse =
      List.replicate (ds.reverse.takeWhile (· == 0)).length 0 := by
    rw [List.eq_replicate_iff]
    refine ⟨List.length_reverse, fun d hd => ?_⟩
    have hall : (ds.reverse.takeWhile (· == 0)).all (· == 0) = true := List.all_takeWhile
    exact beq_iff_eq.mp (List.all_eq_true.mp hall d (List.mem_reverse.mp hd))
  refine ⟨(ds.reverse.takeWhile (· == 0)).length, ?_⟩
  rw [← hzeros, ← List.reverse_append, List.takeWhile_append_dropWhile, List.reverse_reverse]

/-! ## The digits of a number -/

theorem digitsOf_ne_nil (n : Nat) : digitsOf n ≠ [] := by
  simp [digitsOf]

theorem digitsOf_lt {n d : Nat} (h : d ∈ digitsOf n) : d < 10 := by
  obtain ⟨c, hc, rfl⟩ := List.mem_map.mp h
  exact digitValue_lt (Nat.isDigit_of_mem_toDigits (by decide) (by decide) hc)

theorem toDigits_inj {m n : Nat} : Nat.toDigits 10 m = Nat.toDigits 10 n ↔ m = n := by
  refine ⟨fun h => ?_, congrArg _⟩
  simpa only [Nat.ofDigitChars_ten_toDigits] using congrArg (Nat.ofDigitChars 10 · 0) h

theorem toDigits_eq_map (n : Nat) : Nat.toDigits 10 n = (digitsOf n).map digitChar := by
  rw [digitsOf, List.map_map]
  refine ((List.map_congr_left fun c hc => ?_).trans (List.map_id _)).symm
  exact digitChar_digitValue (Nat.isDigit_of_mem_toDigits (by decide) (by decide) hc)

theorem ofDigits_digitsOf (n : Nat) : ofDigits 0 (digitsOf n) = n := by
  rw [ofDigits, digitsOf, List.foldl_map]
  exact Nat.ofDigitChars_ten_toDigits

theorem digitsOf_of_lt {n : Nat} (h : n < 10) : digitsOf n = [n] := by
  rw [digitsOf, Nat.toDigits_of_lt_base h, List.map_singleton, digitValue]
  exact congrArg (fun d => [d]) (Nat.toNat_digitChar_sub_48_of_lt_ten h)

theorem digitsOf_of_ge {n : Nat} (h : 10 ≤ n) : digitsOf n = digitsOf (n / 10) ++ [n % 10] := by
  rw [digitsOf, Nat.toDigits_of_base_le (by decide) h, List.map_append, List.map_singleton,
    digitValue]
  exact congrArg (fun d => digitsOf (n / 10) ++ [d])
    (Nat.toNat_digitChar_sub_48_of_lt_ten (Nat.mod_lt n (by decide)))

theorem head_digitsOf {n : Nat} (h : 0 < n) : (digitsOf n).head? ≠ some 0 := by
  induction n using Nat.strong_induction_on with
  | _ n ih =>
    rcases Nat.lt_or_ge n 10 with hlt | hge
    · simp only [digitsOf_of_lt hlt, List.head?_cons, ne_eq, Option.some.injEq]
      omega
    · obtain ⟨d, ds, hd⟩ := List.exists_cons_of_ne_nil (digitsOf_ne_nil (n / 10))
      have hhead := ih (n / 10) (by omega) (by omega)
      rw [digitsOf_of_ge hge, hd]
      rwa [hd] at hhead

theorem length_digitsOf_le_iff {n k : Nat} (h : 0 < k) : (digitsOf n).length ≤ k ↔ n < 10 ^ k := by
  rw [digitsOf, List.length_map]
  exact Nat.length_toDigits_le_iff (by decide) h

/-- Zeros behind the digits of a number count as digits of the product. -/
theorem length_digitsOf_add_le {d q k : Nat} (hd : 0 < d) (h : d * 10 ^ q < 10 ^ k) :
    (digitsOf d).length + q ≤ k := by
  have hq : q < k := by
    refine (Nat.pow_lt_pow_iff_right (by decide : 1 < 10)).mp ?_
    exact Nat.lt_of_le_of_lt (Nat.le_mul_of_pos_left _ hd) h
  have hlt : d < 10 ^ (k - q) := by
    refine Nat.lt_of_mul_lt_mul_right (a := 10 ^ q) ?_
    rwa [← Nat.pow_add, Nat.sub_add_cancel hq.le]
  have := (length_digitsOf_le_iff (Nat.sub_pos_of_lt hq)).mpr hlt
  omega

theorem length_toDigits {n : Nat} (h : 0 < n) : (Nat.toDigits 10 n).length = Nat.log 10 n + 1 := by
  have hle (k : Nat) : (Nat.toDigits 10 n).length ≤ k + 1 ↔ Nat.log 10 n ≤ k := by
    rw [Nat.length_toDigits_le_iff (by decide) (Nat.succ_pos k), ← Nat.lt_succ_iff,
      Nat.log_lt_iff_lt_pow (by decide) h.ne']
  have hpos : 0 < (Nat.toDigits 10 n).length := Nat.length_toDigits_pos
  have hupper := (hle (Nat.log 10 n)).mpr le_rfl
  have hlower := (hle ((Nat.toDigits 10 n).length - 1)).mp (by omega)
  omega

end FeedDesk.Number
