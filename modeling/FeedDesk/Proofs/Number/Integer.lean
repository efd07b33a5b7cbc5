import FeedDesk.Proofs.Number.Digits

/-!
# Decimal integers

An integer is read from digits behind at most one sign. Each digit counts by the power of ten of
its place, whether or not there are zeros in front, and the number has to lie in a range only as a
whole. From the way it is written every integer is read back.
-/
namespace FeedDesk.Number

/-- One or more ASCII digits, and the number that they denote: each digit counts by the power of
ten of its place. -/
def IsNumeral (cs : List Char) (n : Nat) : Prop :=
  cs ≠ [] ∧ (∀ c ∈ cs, c.isDigit = true) ∧ n = Nat.ofDigits 10 (cs.reverse.map digitValue)

/-- A numeral behind at most one sign, and the integer that it denotes. -/
inductive IsInteger : List Char → Int → Prop
  | unsigned {cs : List Char} {n : Nat} (h : IsNumeral cs n) : IsInteger cs n
  | positive {cs : List Char} {n : Nat} (h : IsNumeral cs n) : IsInteger ('+' :: cs) n
  | negative {cs : List Char} {n : Nat} (h : IsNumeral cs n) : IsInteger ('-' :: cs) (-n)

section
variable {cs : List Char} {n : Nat}

theorem ofDigits_eq_reverse (ds : List Nat) : ofDigits 0 ds = Nat.ofDigits 10 ds.reverse := by
  rw [Nat.ofDigits_eq_foldr, List.foldr_reverse, ofDigits]
  simp only [Nat.cast_id, Nat.add_comm]

theorem readNat?_eq_some_iff : readNat? cs = some n ↔ IsNumeral cs n := by
  have hvalue : Nat.ofDigits 10 (cs.reverse.map digitValue) = ofDigits 0 (cs.map digitValue) := by
    rw [ofDigits_eq_reverse, List.map_reverse]
  rw [IsNumeral, hvalue, readNat?]
  split
  next h =>
    simp only [Bool.or_eq_true, List.isEmpty_iff, Bool.not_eq_true', List.all_eq_false] at h
    simp only [reduceCtorEq, false_iff]
    rintro ⟨hne, hall, -⟩
    rcases h with h | ⟨c, hc, hnot⟩
    · exact hne h
    · exact hnot (hall c hc)
  next h =>
    simp only [Bool.or_eq_true, List.isEmpty_iff, Bool.not_eq_true', not_or, Bool.not_eq_false,
      List.all_eq_true] at h
    rw [Option.some.injEq, eq_comm]
    exact ⟨fun hn => ⟨h.1, h.2, hn⟩, fun hn => hn.2.2⟩

/-- A sign is no digit. -/
theorem IsNumeral.head_ne {c : Char} (h : IsNumeral (c :: cs) n) : c ≠ '+' ∧ c ≠ '-' := by
  have hdigit : c.isDigit = true := h.2.1 c List.mem_cons_self
  constructor <;> rintro rfl <;> simp at hdigit

end

section
variable {cs : List Char} {n : Int}

/-- The integers that are read are those of the grammar. -/
theorem readInt?_eq_some_iff : readInt? cs = some n ↔ IsInteger cs n := by
  have hread {cs : List Char} {f : Int → Int} :
      Option.map f (do let m ← readNat? cs; pure (m : Int)) = some n ↔
        ∃ m : Nat, IsNumeral cs m ∧ f m = n := by
    cases hcs : readNat? cs with
    | none => simp [← readNat?_eq_some_iff, hcs]
    | some m => simp [← readNat?_eq_some_iff, hcs]
  constructor
  · intro h
    unfold readInt? at h
    split at h
    · obtain ⟨m, hm, rfl⟩ := hread.mp h
      exact .positive hm
    · obtain ⟨m, hm, rfl⟩ := hread.mp h
      exact .negative hm
    · obtain ⟨m, hm, rfl⟩ := hread.mp h
      exact .unsigned hm
  · intro h
    cases h with
    | positive hm => exact hread.mpr ⟨_, hm, rfl⟩
    | negative hm => exact hread.mpr ⟨_, hm, rfl⟩
    | unsigned hm =>
      unfold readInt?
      split
      · exact absurd rfl hm.head_ne.1
      · exact absurd rfl hm.head_ne.2
      · exact hread.mpr ⟨_, hm, rfl⟩

theorem readIntIn?_eq_some_iff {lo hi : Int} :
    readIntIn? lo hi cs = some n ↔ IsInteger cs n ∧ lo ≤ n ∧ n ≤ hi := by
  rw [readIntIn?, Option.filter_eq_some_iff, readInt?_eq_some_iff, decide_eq_true_eq]

theorem IsInteger.mem (h : IsInteger cs n) : ∀ c ∈ cs, c.isDigit = true ∨ c = '+' ∨ c = '-' := by
  cases h with
  | unsigned hm => exact fun c hc => .inl (hm.2.1 c hc)
  | positive hm =>
    exact List.forall_mem_cons.mpr ⟨.inr (.inl rfl), fun c hc => .inl (hm.2.1 c hc)⟩
  | negative hm =>
    exact List.forall_mem_cons.mpr ⟨.inr (.inr rfl), fun c hc => .inl (hm.2.1 c hc)⟩

theorem isNumeral_repr (n : Nat) : IsNumeral (Nat.repr n).toList n := by
  rw [Nat.toList_repr]
  refine ⟨Nat.toDigits_ne_nil, fun c hc => ?_, ?_⟩
  · exact Nat.isDigit_of_mem_toDigits (by decide) (by decide) hc
  · rw [List.map_reverse, ← ofDigits_eq_reverse]
    exact (ofDigits_digitsOf n).symm

/-- An integer is denoted by what is written for it. -/
theorem isInteger_repr (n : Int) : IsInteger (Int.repr n).toList n := by
  cases n with
  | ofNat n => exact .unsigned (isNumeral_repr n)
  | negSucc n =>
    have hwritten : (Int.repr (.negSucc n)).toList = '-' :: (Nat.repr (n + 1)).toList := by
      rw [Int.repr, String.toList_append]
      rfl
    rw [hwritten]
    exact .negative (isNumeral_repr (n + 1))

end

end FeedDesk.Number
