import FeedDesk.Number.Fixed
import FeedDesk.Proofs.Json.Number

/-!
# Fixed decimal places read back

A number with a fixed count of decimal places is written like a literal of that many digits behind
the point, and the digits of this literal denote the number in units of the last place.
-/
namespace FeedDesk

open Number

/-- The literal of a whole number of units of the last of some decimal places. -/
def NumberLiteral.ofUnits (places : ℕ) (negative : Bool) (units : ℕ) : NumberLiteral :=
  let behind := digitsOf (units % Nat.pow 10 places)
  { negative := negative
    whole := digitsOf (units / Nat.pow 10 places)
    fraction := if places = 0 then [] else List.replicate (places - behind.length) 0 ++ behind
    power := none }

namespace NumberLiteral

variable (places : ℕ) (negative : Bool) (units : ℕ)

theorem length_digitsOf_mod_le (h : places ≠ 0) :
    (digitsOf (units % Nat.pow 10 places)).length ≤ places :=
  (length_digitsOf_le_iff (Nat.pos_of_ne_zero h)).mpr (Nat.mod_lt _ (Nat.pow_pos (by decide)))

theorem length_fraction_ofUnits : (ofUnits places negative units).fraction.length = places := by
  by_cases h : places = 0
  · simp [ofUnits, h]
  · have hle := length_digitsOf_mod_le places units h
    simp only [ofUnits, h, if_false, List.length_append, List.length_replicate]
    exact Nat.sub_add_cancel hle

theorem legible_ofUnits : (ofUnits places negative units).Legible where
  whole_lt _ hd := digitsOf_lt hd
  fraction_lt d hd := by
    by_cases h : places = 0
    · simp [ofUnits, h] at hd
    · simp only [ofUnits, h, if_false, List.mem_append, List.mem_replicate] at hd
      obtain ⟨-, rfl⟩ | hd := hd
      · decide
      · exact digitsOf_lt hd
  isWholePart := by
    rcases Nat.eq_zero_or_pos (units / Nat.pow 10 places) with hzero | hpos
    · simp only [ofUnits, hzero]
      decide
    · simpa [ofUnits] using isWholePart_digitsOf hpos []

theorem ofDigits_ofUnits :
    ofDigits 0 ((ofUnits places negative units).whole ++ (ofUnits places negative units).fraction) =
      units := by
  have hfraction : ofDigits 0 (ofUnits places negative units).fraction =
      units % Nat.pow 10 places := by
    by_cases h : places = 0
    · simp [ofUnits, h, ofDigits, Nat.mod_one]
    · simp only [ofUnits, h, if_false]
      rw [ofDigits_append, ofDigits_replicate_zero, Nat.zero_mul, ofDigits_digitsOf]
  rw [ofDigits_append, ofDigits_eq_mul_add, hfraction, length_fraction_ofUnits]
  simp only [ofUnits, ofDigits_digitsOf]
  exact Nat.div_add_mod' units (10 ^ places)

theorem fixed_eq_writeNumber (num den : ℕ) :
    fixed places negative num den =
      Json.writeNumber (ofUnits places negative (scaledRound places num den)) := by
  have hpoint (units : ℕ) : placePoint places units =
      (ofUnits places negative units).whole.map digitChar
        ++ Json.writeFraction (ofUnits places negative units).fraction := by
    by_cases h : places = 0
    · simp [placePoint, ofUnits, h, Json.writeFraction, toDigits_eq_map]
    · have hne : (ofUnits places negative units).fraction ≠ [] := by
        simp [ofUnits, h, digitsOf_ne_nil]
      rw [Json.writeFraction, List.isEmpty_eq_false_iff.mpr hne, if_neg Bool.false_ne_true]
      simp [placePoint, ofUnits, h, lastDigits, toDigits_eq_map, show digitChar 0 = '0' from rfl]
  rw [fixed, hpoint]
  simp [Json.writeNumber, Json.writeFraction, Json.writePower, ofUnits]

theorem readNumber_fixed (num den : ℕ) {rest : List Char} (h : Json.EndsNumber rest) :
    Json.readNumber (fixed places negative num den ++ rest) =
      some (ofUnits places negative (scaledRound places num den), rest) := by
  rw [fixed_eq_writeNumber, Json.readNumber_writeNumber (legible_ofUnits _ _ _) h]

end NumberLiteral

end FeedDesk
