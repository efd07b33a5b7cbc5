import FeedDesk.Json.Parser
import FeedDesk.Json.Printer
import FeedDesk.Proofs.Number.Whole

/-!
# Numbers read back

A literal is written as its digits and read as itself, if what follows does not go on with the
number. The literals of integers of 64 bits and of whole binary64 numbers denote these numbers.
-/
namespace FeedDesk

open Number

/-- A literal that can be written: decimal digits, and no zero in front of the whole part. -/
structure NumberLiteral.Legible (n : NumberLiteral) : Prop where
  whole_lt : ∀ d ∈ n.whole, d < 10
  fraction_lt : ∀ d ∈ n.fraction, d < 10
  isWholePart : Json.isWholePart n.whole = true

namespace Json

/-- A text that does not go on with a number in front of it. -/
def EndsNumber (rest : List Char) : Prop :=
  ∀ c ∈ rest.head?, c.isDigit = false ∧ c ≠ '.' ∧ c ≠ 'e' ∧ c ≠ 'E'

theorem endsNumber_space (rest : List Char) : EndsNumber (' ' :: rest) := by
  intro c hc
  obtain rfl := Option.some.inj hc
  decide

/-! ## The parts of a literal -/

theorem readDigits_append {ds : List Nat} {rest : List Char} (hds : ∀ d ∈ ds, d < 10)
    (hrest : ∀ c ∈ rest.head?, c.isDigit = false) :
    readDigits (ds.map digitChar ++ rest) = (ds, rest) := by
  have hdigits : ∀ c ∈ ds.map digitChar, c.isDigit = true := by
    intro c hc
    obtain ⟨d, hd, rfl⟩ := List.mem_map.mp hc
    exact isDigit_digitChar (hds d hd)
  have htake : rest.takeWhile Char.isDigit = [] := by
    cases rest with
    | nil => rfl
    | cons c rest => simp [hrest c rfl]
  have hdrop : rest.dropWhile Char.isDigit = rest := by
    cases rest with
    | nil => rfl
    | cons c rest => simp [hrest c rfl]
  rw [readDigits, List.takeWhile_append_of_pos hdigits, List.dropWhile_append_of_pos hdigits,
    htake, hdrop, List.append_nil, map_digitValue_digitChar hds]

theorem readPowerDigits_toDigits (sign : Int) (n : Nat) {rest : List Char}
    (hrest : ∀ c ∈ rest.head?, c.isDigit = false) :
    readPowerDigits sign (Nat.toDigits 10 n ++ rest) = some (some (sign * n), rest) := by
  rw [toDigits_eq_map, readPowerDigits, readDigits_append (fun d hd => digitsOf_lt hd) hrest]
  simp [digitsOf_ne_nil, ofDigits_digitsOf]

theorem readPower_append (p : Option Int) {rest : List Char} (hrest : EndsNumber rest) :
    readPower (writePower p ++ rest) = some (p, rest) := by
  cases p with
  | none =>
    cases rest with
    | nil => rfl
    | cons c rest =>
      obtain ⟨-, -, he, hE⟩ := hrest c rfl
      rw [writePower, List.nil_append, readPower]
      all_goals simp_all
  | some p =>
    have hdigit := fun c hc => (hrest c hc).1
    rw [writePower, List.cons_append, List.cons_append]
    split
    · next h =>
      rw [readPower, readPowerDigits_toDigits _ _ hdigit, show -1 * (p.natAbs : Int) = p by omega]
    · next h =>
      rw [readPower, readPowerDigits_toDigits _ _ hdigit, show 1 * (p.natAbs : Int) = p by omega]

/-- What follows the digits of a literal starts neither with a digit nor with a point. -/
theorem head_writePower (p : Option Int) {rest : List Char} (hrest : EndsNumber rest) :
    ∀ c ∈ (writePower p ++ rest).head?, c.isDigit = false ∧ c ≠ '.' := by
  intro c hc
  cases p with
  | none =>
    obtain ⟨hdigit, hpoint, -⟩ := hrest c hc
    exact ⟨hdigit, hpoint⟩
  | some p =>
    obtain rfl := Option.some.inj hc
    decide

def writeFraction (ds : List Nat) : List Char :=
  if ds.isEmpty then [] else '.' :: ds.map digitChar

theorem readFraction_append {ds : List Nat} {rest : List Char} (hds : ∀ d ∈ ds, d < 10)
    (hrest : ∀ c ∈ rest.head?, c.isDigit = false ∧ c ≠ '.') :
    readFraction (writeFraction ds ++ rest) = some (ds, rest) := by
  cases ds with
  | nil =>
    cases rest with
    | nil => rfl
    | cons c rest =>
      have hpoint := (hrest c rfl).2
      rw [writeFraction, List.isEmpty_nil, if_pos rfl, List.nil_append, readFraction]
      simpa using hpoint
  | cons d ds =>
    have hread := readDigits_append hds fun c hc => (hrest c hc).1
    rw [writeFraction, List.isEmpty_cons, if_neg Bool.false_ne_true, List.cons_append,
      readFraction, hread]
    rfl

theorem head_writeFraction (ds : List Nat) {rest : List Char}
    (hrest : ∀ c ∈ rest.head?, c.isDigit = false ∧ c ≠ '.') :
    ∀ c ∈ (writeFraction ds ++ rest).head?, c.isDigit = false := by
  intro c hc
  cases ds with
  | nil => exact (hrest c hc).1
  | cons d ds =>
    obtain rfl := Option.some.inj hc
    rfl

/-! ## Literals -/

theorem readMagnitude_append {n : NumberLiteral} (h : n.Legible) {rest : List Char}
    (hrest : EndsNumber rest) :
    readMagnitude n.negative (n.whole.map digitChar
      ++ (writeFraction n.fraction ++ (writePower n.power ++ rest))) = some (n, rest) := by
  have hpower := head_writePower n.power hrest
  have hwhole := readDigits_append h.whole_lt (head_writeFraction n.fraction hpower)
  simp [readMagnitude, hwhole, h.isWholePart, readFraction_append h.fraction_lt hpower,
    readPower_append n.power hrest]

theorem writeNumber_append (n : NumberLiteral) (rest : List Char) :
    writeNumber n ++ rest = (if n.negative then ['-'] else []) ++ (n.whole.map digitChar
      ++ (writeFraction n.fraction ++ (writePower n.power ++ rest))) := by
  simp only [writeNumber, writeFraction, List.append_assoc]

theorem head_writeNumber {n : NumberLiteral} (h : n.Legible) :
    ∃ c cs, writeNumber n = c :: cs ∧ (c = '-' ∨ c.isDigit = true) := by
  cases hsign : n.negative with
  | true => exact ⟨'-', _, by rw [writeNumber, hsign]; rfl, .inl rfl⟩
  | false =>
    match hwhole : n.whole, h.isWholePart with
    | d :: ds, _ =>
      have hd : d < 10 := h.whole_lt d (hwhole ▸ List.mem_cons_self)
      exact ⟨digitChar d, _, by rw [writeNumber, hsign, hwhole]; rfl, .inr (isDigit_digitChar hd)⟩

theorem readNumber_of_digit {c : Char} (cs : List Char) (h : c.isDigit = true) :
    readNumber (c :: cs) = readMagnitude false (c :: cs) := by
  have hminus : c ≠ '-' := by
    rintro rfl
    cases h
  rw [readNumber]
  simpa using hminus

theorem readNumber_writeNumber {n : NumberLiteral} (h : n.Legible) {rest : List Char}
    (hrest : EndsNumber rest) : readNumber (writeNumber n ++ rest) = some (n, rest) := by
  have hread := readMagnitude_append h hrest
  rw [writeNumber_append]
  cases hsign : n.negative with
  | true =>
    rw [hsign] at hread
    exact hread
  | false =>
    rw [hsign] at hread
    match hwhole : n.whole, h.isWholePart with
    | d :: ds, _ =>
      rw [hwhole] at hread
      have hd : d < 10 := h.whole_lt d (hwhole ▸ List.mem_cons_self)
      exact (readNumber_of_digit _ (isDigit_digitChar hd)).trans hread

theorem readDigits_lt {cs : List Char} {d : Nat} (h : d ∈ (readDigits cs).1) : d < 10 := by
  obtain ⟨c, hc, rfl⟩ := List.mem_map.mp h
  have hall : (cs.takeWhile Char.isDigit).all Char.isDigit = true := List.all_takeWhile
  exact digitValue_lt (List.all_eq_true.mp hall c hc)

theorem readFraction_lt {cs rest : List Char} {ds : List Nat}
    (h : readFraction cs = some (ds, rest)) : ∀ d ∈ ds, d < 10 := by
  unfold readFraction at h
  split at h
  · simp only [Option.ite_none_left_eq_some, Option.some.injEq, Prod.mk.injEq] at h
    obtain ⟨-, rfl, -⟩ := h
    exact fun d hd => readDigits_lt hd
  · obtain ⟨rfl, -⟩ := Prod.mk.inj (Option.some.inj h)
    exact fun d hd => nomatch hd

theorem legible_of_readMagnitude {negative : Bool} {cs rest : List Char} {n : NumberLiteral}
    (h : readMagnitude negative cs = some (n, rest)) : n.Legible := by
  simp only [readMagnitude, Option.bind_eq_bind, Option.bind_eq_some_iff, Option.guard_eq_some',
    Option.pure_def, Option.some.injEq, Prod.mk.injEq] at h
  obtain ⟨-, hwhole, ⟨fraction, rest'⟩, hfraction, ⟨power, rest''⟩, -, rfl, -⟩ := h
  exact ⟨fun d hd => readDigits_lt hd, readFraction_lt hfraction, hwhole⟩

/-- Every literal that is read can be written. -/
theorem legible_of_readNumber {cs rest : List Char} {n : NumberLiteral}
    (h : readNumber cs = some (n, rest)) : n.Legible := by
  unfold readNumber at h
  split at h <;> exact legible_of_readMagnitude h

end Json

namespace NumberLiteral

/-! ## Literals of integers -/

theorem isWholePart_digitsOf {n : Nat} (h : 0 < n) (ds : List Nat) :
    Json.isWholePart (digitsOf n ++ ds) = true := by
  match heq : digitsOf n, digitsOf_ne_nil n, head_digitsOf h with
  | d :: rest, _, hhead =>
    have hd : d ≠ 0 := fun h => hhead (congrArg some h)
    simp [Json.isWholePart, hd]

theorem legible_ofInt (i : Int) : (ofInt i).Legible where
  whole_lt _ hd := digitsOf_lt hd
  fraction_lt _ hd := nomatch hd
  isWholePart := by
    simp only [ofInt]
    rcases Nat.eq_zero_or_pos i.natAbs with hzero | hpos
    · rw [hzero]
      decide
    · simpa using isWholePart_digitsOf hpos []

/-- An integer that 64 bits can hold, signed or unsigned, is denoted by its literal. -/
theorem value?_ofInt {i : Int} (hlow : -Int.pow 2 63 ≤ i) (hhigh : i < Int.pow 2 64) :
    (ofInt i).value? = some (.integer i) := by
  have hlow' : (-9223372036854775808 : Int) ≤ i := hlow
  have hhigh' : i < 18446744073709551616 := hhigh
  rcases lt_or_ge i 0 with hneg | hnonneg
  · have hpos : 0 < i.natAbs := by omega
    have hfits : i.natAbs ≤ Nat.pow 2 63 := show i.natAbs ≤ 9223372036854775808 by omega
    simp [value?, ofInt, ofDigits_digitsOf, hneg, hpos, hfits, abs_of_neg hneg]
  · have hfits : i.natAbs < UInt64.size := show i.natAbs < 18446744073709551616 by omega
    simp [value?, ofInt, ofDigits_digitsOf, not_lt.mpr hnonneg, hfits, abs_of_nonneg hnonneg]

/-! ## Literals of whole binary64 numbers -/

/-- Digits are laid out in full in front of the point as long as they are few enough. -/
theorem layout_zeros (negative : Bool) {kept : List Nat} {k q : Nat}
    (hpos : 0 < kept.length + k) (hlength : kept.length + k + q ≤ 16) :
    layout negative kept (q + (kept.length + k : Nat) - 1) =
      ⟨negative, kept ++ List.replicate (k + q) 0, [0], none⟩ := by
  have hlead : ((q : Int) + (kept.length + k : Nat) - 1).toNat + 1 = kept.length + (k + q) := by
    omega
  have hfew : kept.length ≤ kept.length + (k + q) := Nat.le_add_right _ _
  rw [layout, if_pos (by omega)]
  simp only [hlead, List.take_of_length_le hfew, List.drop_of_length_le hfew,
    Nat.add_sub_cancel_left, List.isEmpty_nil, if_true]

/-- A whole number other than zero is written as its digits, with one zero behind the point. -/
theorem ofBinary64?_whole (negative : Bool) {m n : Nat} {e : Int} (h : Binary64.WholeForm m e n) :
    ∃ ds, ofBinary64? (.finite negative m e) = some ⟨negative, ds, [0], none⟩ ∧
      ofDigits 0 ds = n ∧ (∀ d ∈ ds, d < 10) ∧ Json.isWholePart ds = true := by
  obtain ⟨d, q, hshortest, hd⟩ := h.shortest
  have hn := h.pos
  have hlimit := h.le_limit
  have hpos : 0 < d := by
    rcases Nat.eq_zero_or_pos d with rfl | hpos
    · rw [Nat.zero_mul] at hd
      omega
    · exact hpos
  have hlength : (digitsOf d).length + q ≤ 16 := length_digitsOf_add_le hpos (by omega)
  refine ⟨digitsOf d ++ List.replicate q 0, ?_, ?_, ?_, isWholePart_digitsOf hpos _⟩
  · -- The digits are laid out without their last zeros, which the layout puts back.
    obtain ⟨k, hk⟩ := exists_append_zeros (digitsOf d)
    simp only [ofBinary64?, h.significand_pos.ne', if_false, hshortest]
    generalize ((digitsOf d).reverse.dropWhile (· == 0)).reverse = kept at hk ⊢
    have hsum : (digitsOf d).length = kept.length + k := by simp [hk]
    rw [hsum] at hlength ⊢
    have hdigits : 0 < kept.length + k := hsum ▸ List.length_pos_of_ne_nil (digitsOf_ne_nil d)
    rw [layout_zeros negative hdigits hlength, hk, List.append_assoc,
      List.replicate_append_replicate]
  · rw [ofDigits_append, ofDigits_digitsOf, ofDigits_replicate_zero, hd]
  · intro c hc
    rcases List.mem_append.mp hc with hc | hc
    · exact digitsOf_lt hc
    · rw [List.eq_of_mem_replicate hc]
      decide

/-- A whole binary64 number, negative zero included, has a literal that denotes it. -/
theorem real?_ofBinary64? {x : Binary64} (h : x.IsWhole (2 ^ 49)) :
    ∃ n, ofBinary64? x = some n ∧ n.Legible ∧ n.real? = some x := by
  match x, h with
  | .finite negative m e, ⟨hcanonical, n, hlimit, hvalue⟩ =>
    rcases Nat.eq_zero_or_pos n with rfl | hn
    · obtain rfl : m = 0 := by
        have hpow : (0 : ℚ) < 2 ^ e := by positivity
        have hzero : (m : ℚ) = 0 := by simpa [hpow.ne'] using hvalue
        exact_mod_cast hzero
      obtain rfl : e = Binary64.minExponent := hcanonical.full.resolve_left (by decide)
      refine ⟨⟨negative, [0], [0], none⟩, rfl, ⟨by simp, by simp, rfl⟩, ?_⟩
      cases negative <;> decide +kernel
    · have hform : Binary64.WholeForm m e n := ⟨hcanonical, hn, hvalue, hlimit⟩
      obtain ⟨ds, hwrite, hds, hlt, hpart⟩ := ofBinary64?_whole negative hform
      exact ⟨_, hwrite, ⟨hlt, by simp, hpart⟩, ofDecimal?_whole negative hform hds⟩

end NumberLiteral

end FeedDesk
