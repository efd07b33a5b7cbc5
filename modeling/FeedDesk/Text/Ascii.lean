/-!
# ASCII letter case

Option names, status filters and file extensions are compared without regard to the case of
the ASCII letters. All other characters stand for themselves.
-/
namespace FeedDesk.Text

def lower (s : String) : String :=
  String.ofList (s.toList.map Char.toLower)

/-- A capital letter is lower-cased by its distance to the small one, and nothing else changes. -/
theorem toNat_toLower (c : Char) :
    c.toLower.toNat = if 65 ≤ c.toNat ∧ c.toNat ≤ 90 then c.toNat + 32 else c.toNat := by
  have hupper : c.val ≥ 'A'.val ∧ c.val ≤ 'Z'.val ↔ 65 ≤ c.toNat ∧ c.toNat ≤ 90 := by
    simp only [ge_iff_le, UInt32.le_iff_toNat_le]
    rfl
  unfold Char.toLower
  split
  next h =>
    rw [if_pos (hupper.mp h)]
    have hbound : c.toNat ≤ 90 := (hupper.mp h).2
    change (c.val + ('a'.val - 'A'.val)).toNat = _
    rw [UInt32.toNat_add, Nat.mod_eq_of_lt]
    · rfl
    · change c.toNat + 32 < _
      omega
  next h => rw [if_neg fun hrange => h (hupper.mpr hrange)]

def upper (s : String) : String :=
  String.ofList (s.toList.map Char.toUpper)

def sameLetters (s t : List Char) : Bool :=
  s.map Char.toLower == t.map Char.toLower

def eqIgnoreCase (s t : String) : Bool :=
  sameLetters s.toList t.toList

theorem eqIgnoreCase_iff {s t : String} : eqIgnoreCase s t = true ↔ lower s = lower t := by
  simp [eqIgnoreCase, sameLetters, lower, String.ofList_inj]

@[simp] theorem eqIgnoreCase_refl (s : String) : eqIgnoreCase s s = true :=
  eqIgnoreCase_iff.2 rfl

end FeedDesk.Text
