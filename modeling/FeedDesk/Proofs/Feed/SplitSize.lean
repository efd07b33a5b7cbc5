import FeedDesk.Proofs.Feed.Places
import Mathlib.Data.Int.ModEq

/-!
# Sizes in two halves

The bytes of an item are given in two halves of 32 bits, each as any integer of 64 bits, signed or
unsigned, of which the low 32 bits count. The halves of every count of bytes join to this count,
and no other number, minus zero included, is a half.
-/
namespace FeedDesk

open Number
open Record (given)

/-- Plain digits that spell an integer. Minus zero spells none. -/
structure NumberLiteral.Spells (n : NumberLiteral) (i : ℤ) : Prop where
  fraction : n.fraction = []
  power : n.power = none
  sign : n.negative = true ↔ i < 0
  digits : ofDigits 0 n.whole = i.natAbs

namespace Item

/-- What an item is given under a name, as a member or as an element. -/
inductive Gives : Json → String → Json → Prop
  | member {ms : List (Option String × Json)} {name : String} {v : Json}
      (h : given ms name = [v]) : Gives (.object ms) name v
  | element {vs : List Json} {place : ℕ} {name : String} {v : Json}
      (hname : memberNames[place]? = some name) (h : vs[place]? = some v) :
      Gives (.array vs) name v

def IsHalf (v : Json) (i : ℤ) : Prop :=
  ∃ n : NumberLiteral, v = .number n ∧ n.Spells i ∧ -2 ^ 63 ≤ i ∧ i < 2 ^ 64

/-- Numbers that are no half of a size, and null. -/
inductive Unfit : Json → Prop
  | null : Unfit .null
  | outside {n : NumberLiteral} {i : ℤ} (h : n.Spells i) (hi : i < -2 ^ 63 ∨ 2 ^ 64 ≤ i) :
      Unfit (.number n)
  | fraction {n : NumberLiteral} (h : n.fraction ≠ []) : Unfit (.number n)
  | power {n : NumberLiteral} (h : n.power ≠ none) : Unfit (.number n)
  | minusZero {n : NumberLiteral} (hsign : n.negative = true) (hzero : ofDigits 0 n.whole = 0) :
      Unfit (.number n)

def withHalves (low high : Json) : Json → Json
  | .object ms => .object (ms.map fun m =>
      (m.1, if m.1 = some "SizeLo" then low else if m.1 = some "SizeHi" then high else m.2))
  | .array vs => .array ((vs.set 7 low).set 8 high)
  | j => j

def withBytes (n : UInt64) (item : Item) : Item :=
  { item with
    sizeLow := .ofNat n.toNat
    sizeHigh := .ofNat (n.toNat / 2 ^ 32) }

/-- How the halves that a document gives count for what is decoded from its text. -/
structure SizedByHalves (j low high : Json) (decoded : Option Item) : Prop where
  /-- The halves of a count of bytes, signed or not, join to this count. -/
  joined : ∀ (n : UInt64) (lo hi : ℤ), IsHalf low lo → IsHalf high hi →
    lo ≡ n.toNat [ZMOD 2 ^ 32] → hi ≡ (n.toNat / 2 ^ 32 : ℕ) [ZMOD 2 ^ 32] →
    ∀ item, decoded = some item → item.sizeBytes = n.toNat
  /-- They are no reason to refuse an item, and count for nothing else. -/
  accepted : ∀ (n : UInt64) (lo hi : ℤ), IsHalf low lo → IsHalf high hi →
    lo ≡ n.toNat [ZMOD 2 ^ 32] → hi ≡ (n.toNat / 2 ^ 32 : ℕ) [ZMOD 2 ^ 32] →
    decoded = (decode? (withHalves (.ofInt 0) (.ofInt 0) j).render).map (withBytes n)
  /-- Other numbers and null are refused. -/
  refused : Unfit low ∨ Unfit high → decoded = none

end Item

/-! ## Literals of integers -/

namespace NumberLiteral

/-- A literal denotes the integer that it spells, if 64 bits can hold it. -/
theorem value?_eq_integer_iff {n : NumberLiteral} {i : ℤ} :
    n.value? = some (.integer i) ↔ n.Spells i ∧ -2 ^ 63 ≤ i ∧ i < 2 ^ 64 := by
  have hword : UInt64.size = 2 ^ 64 := rfl
  have hhalf : Nat.pow 2 63 = 2 ^ 63 := rfl
  unfold value?
  simp only [hword, hhalf, Bool.and_eq_true, List.isEmpty_iff, Option.isNone_iff_eq_none,
    Bool.not_eq_true', decide_eq_true_eq]
  split
  · next h =>
    obtain ⟨⟨⟨hfraction, hpower⟩, hsign⟩, hlt⟩ := h
    rw [Option.some_inj, JsonNumber.integer.injEq]
    constructor
    · rintro rfl
      exact ⟨⟨hfraction, hpower, by simp [hsign], by simp⟩, by omega, by omega⟩
    · rintro ⟨⟨-, -, hneg, hdigits⟩, -, -⟩
      have hnonneg : ¬ i < 0 := fun hi => by simp [hneg.mpr hi] at hsign
      omega
  · next hplain =>
    split
    · next h =>
      obtain ⟨⟨⟨⟨hfraction, hpower⟩, hsign⟩, hpos⟩, hle⟩ := h
      rw [Option.some_inj, JsonNumber.integer.injEq]
      constructor
      · rintro rfl
        exact ⟨⟨hfraction, hpower, by simp [hsign]; omega, by simp⟩, by omega, by omega⟩
      · rintro ⟨⟨-, -, hneg, hdigits⟩, -, -⟩
        have hi := hneg.mp hsign
        omega
    · next hminus =>
      constructor
      · intro h
        obtain ⟨x, -, hx⟩ := Option.map_eq_some_iff.mp h
        cases hx
      · rintro ⟨⟨hfraction, hpower, hneg, hdigits⟩, hlow, hhigh⟩
        cases hsign : n.negative with
        | false =>
          have hnonneg : ¬ i < 0 := fun hi => by simp [hneg.mpr hi] at hsign
          exact absurd ⟨⟨⟨hfraction, hpower⟩, hsign⟩, by omega⟩ hplain
        | true =>
          have hi := hneg.mp hsign
          exact absurd ⟨⟨⟨⟨hfraction, hpower⟩, hsign⟩, by omega⟩, by omega⟩ hminus

end NumberLiteral

namespace Item

/-! ## Halves -/

theorem asInteger?_eq_some_iff {v : Json} {i : ℤ} : v.asInteger? = some i ↔ IsHalf v i := by
  constructor
  · intro h
    cases v with
    | number n =>
      refine ⟨n, rfl, NumberLiteral.value?_eq_integer_iff.mp ?_⟩
      simp only [Json.asInteger?] at h
      split at h
      · next heq => rw [heq, Option.some.inj h]
      · cases h
    | _ => cases h
  · rintro ⟨n, rfl, hn⟩
    rw [Json.asInteger?, NumberLiteral.value?_eq_integer_iff.mpr hn]

theorem sizeHalf?_of_isHalf {v : Json} {i : ℤ} (h : IsHalf v i) :
    sizeHalf? v = some (.ofNat (i % 2 ^ 32).toNat) := by
  rw [sizeHalf?, asInteger?_eq_some_iff.mpr h]
  rfl

theorem bind_sizeHalf? {r : Record} {name : String} {v : Json} {i : ℤ} (hget : r.get? name = some v)
    (h : IsHalf v i) : (r.get? name).bind sizeHalf? = some (.ofNat (i % 2 ^ 32).toNat) := by
  rw [hget, Option.bind_some, sizeHalf?_of_isHalf h]

theorem sizeHalf?_of_unfit {v : Json} (h : Unfit v) : sizeHalf? v = none := by
  rw [sizeHalf?, Option.map_eq_none_iff, Option.eq_none_iff_forall_ne_some]
  intro i hi
  obtain ⟨n, hv, hspells, hlow, hhigh⟩ := asInteger?_eq_some_iff.mp hi
  cases h with
  | null => cases hv
  | @outside n j hj houtside =>
    cases hv
    have hsign := hj.sign.symm.trans hspells.sign
    have hdigits := hj.digits.symm.trans hspells.digits
    omega
  | fraction hfraction =>
    cases hv
    exact hfraction hspells.fraction
  | power hpower =>
    cases hv
    exact hpower hspells.power
  | minusZero hsign hzero =>
    cases hv
    have hneg := hspells.sign.mp hsign
    have hdigits := hspells.digits
    omega

theorem sizeBytes_withBytes (n : UInt64) (item : Item) :
    (item.withBytes n).sizeBytes = n.toNat := by
  have hn : n.toNat < 2 ^ 64 := n.toNat_lt
  simp only [withBytes, sizeBytes, UInt32.toNat_ofNat']
  change n.toNat / 2 ^ 32 % 2 ^ 32 * 2 ^ 32 + n.toNat % 2 ^ 32 = n.toNat
  omega

theorem half_eq {n : ℕ} {i : ℤ} (h : i ≡ n [ZMOD 2 ^ 32]) :
    UInt32.ofNat (i % 2 ^ 32).toNat = .ofNat n := by
  rw [h.eq, ← UInt32.toNat_inj]
  simp only [UInt32.toNat_ofNat']
  omega

/-! ## Records with halves -/

/-- The halves are fields of their own. -/
theorem field?_resized {name : String} (hlow : name ≠ "SizeLo") (hhigh : name ≠ "SizeHi")
    (item : Item) (low high : UInt32) :
    { item with sizeLow := low, sizeHigh := high }.field? name = item.field? name := by
  unfold field?
  split <;> first | rfl | exact absurd rfl hlow | exact absurd rfl hhigh

section

variable {r r' : Record} {low high : UInt32}

theorem fieldOf?_sizeLo (h : (r.get? "SizeLo").bind sizeHalf? = some low) :
    fieldOf? "SizeLo" (r.get? "SizeLo") = some (.half low) := by
  obtain ⟨v, hv, hread⟩ := Option.bind_eq_some_iff.mp h
  simp [hv, fieldOf?, readField?, hread]

theorem fieldOf?_sizeHi (h : (r.get? "SizeHi").bind sizeHalf? = some high) :
    fieldOf? "SizeHi" (r.get? "SizeHi") = some (.half high) := by
  obtain ⟨v, hv, hread⟩ := Option.bind_eq_some_iff.mp h
  simp [hv, fieldOf?, readField?, hread]

/-- An item with other halves comes of a record that differs in these. -/
theorem ofRecord?_resized {item : Item} (hitem : ofRecord? r = some item)
    (hsame : ∀ name ∈ memberNames, name ≠ "SizeLo" → name ≠ "SizeHi" →
      r'.get? name = r.get? name)
    (hlow : (r'.get? "SizeLo").bind sizeHalf? = some low)
    (hhigh : (r'.get? "SizeHi").bind sizeHalf? = some high) :
    ofRecord? r' = some { item with sizeLow := low, sizeHigh := high } := by
  rw [ofRecord?_eq_some_iff] at hitem ⊢
  intro name hname
  by_cases hnameLow : name = "SizeLo"
  · subst hnameLow
    rw [fieldOf?_sizeLo hlow]
    rfl
  · by_cases hnameHigh : name = "SizeHi"
    · subst hnameHigh
      rw [fieldOf?_sizeHi hhigh]
      rfl
    · rw [field?_resized hnameLow hnameHigh, hsame name hname hnameLow hnameHigh]
      exact hitem name hname

theorem sizes_of_ofRecord? {item : Item} (hitem : ofRecord? r = some item)
    (hlow : (r.get? "SizeLo").bind sizeHalf? = some low)
    (hhigh : (r.get? "SizeHi").bind sizeHalf? = some high) :
    item.sizeLow = low ∧ item.sizeHigh = high := by
  rw [ofRecord?_eq_some_iff] at hitem
  have hlowField := hitem "SizeLo" (by decide)
  have hhighField := hitem "SizeHi" (by decide)
  rw [fieldOf?_sizeLo hlow] at hlowField
  rw [fieldOf?_sizeHi hhigh] at hhighField
  exact ⟨Field.half.inj (Option.some.inj hlowField), Field.half.inj (Option.some.inj hhighField)⟩

/-- Of two records that differ in their halves, both give an item or neither does. -/
theorem ofRecord?_eq_map {low' high' : UInt32}
    (hsame : ∀ name ∈ memberNames, name ≠ "SizeLo" → name ≠ "SizeHi" →
      r'.get? name = r.get? name)
    (hlow : (r.get? "SizeLo").bind sizeHalf? = some low)
    (hhigh : (r.get? "SizeHi").bind sizeHalf? = some high)
    (hlow' : (r'.get? "SizeLo").bind sizeHalf? = some low')
    (hhigh' : (r'.get? "SizeHi").bind sizeHalf? = some high') :
    ofRecord? r = (ofRecord? r').map fun item =>
      { item with sizeLow := low, sizeHigh := high } := by
  cases hitem : ofRecord? r with
  | some item =>
    obtain ⟨rfl, rfl⟩ := sizes_of_ofRecord? hitem hlow hhigh
    rw [ofRecord?_resized hitem hsame hlow' hhigh']
    rfl
  | none =>
    cases hitem' : ofRecord? r' with
    | none => rfl
    | some item =>
      have hsame' := fun name hname hne hne' => (hsame name hname hne hne').symm
      rw [ofRecord?_resized hitem' hsame' hlow hhigh] at hitem
      cases hitem

end

/-! ## Documents with halves -/

/-- The records of a document and of the same document with other halves. -/
structure Halved (j low high low' high' : Json) (r r' : Record) : Prop where
  record : Record.ofJson? memberNames j = some r
  replaced : Record.ofJson? memberNames (withHalves low' high' j) = some r'
  same : ∀ name ∈ memberNames, name ≠ "SizeLo" → name ≠ "SizeHi" → r'.get? name = r.get? name
  low : r.get? "SizeLo" = some low
  high : r.get? "SizeHi" = some high
  newLow : r'.get? "SizeLo" = some low'
  newHigh : r'.get? "SizeHi" = some high'

theorem given_replaced (low high : Json) (ms : List (Option String × Json)) (name : String) :
    given (ms.map fun m =>
      (m.1, if m.1 = some "SizeLo" then low else if m.1 = some "SizeHi" then high else m.2)) name =
      (given ms name).map fun v =>
        if name = "SizeLo" then low else if name = "SizeHi" then high else v := by
  induction ms with
  | nil => rfl
  | cons m ms ih =>
    obtain ⟨other, v⟩ := m
    by_cases hname : other = some name
    · subst hname
      simp only [List.map_cons, Record.given_cons_self, ih, Option.some.injEq]
    · rw [List.map_cons, Record.given_cons_of_ne hname, Record.given_cons_of_ne hname, ih]

theorem known_eq_none {declared : List String} {ms : List (Option String × Json)}
    {m : Option String × Json} (hm : m ∈ ms) (hnone : m.1 = none) :
    Record.known declared ms = none := by
  induction ms with
  | nil => cases hm
  | cons other ms ih =>
    match other with
    | (none, _) => rfl
    | (some name, v) =>
      obtain rfl | hm := List.mem_cons.mp hm
      · cases hnone
      · rw [Record.known, ih hm, Option.map_none]

/-- An object whose names are not all text, or that gives a declared name twice, is no record. -/
theorem ofJson?_object_cases (ms : List (Option String × Json)) :
    Record.ofJson? memberNames (.object ms) = none ∨
      (∀ m ∈ ms, m.1.isSome) ∧ ∀ name ∈ memberNames, (given ms name).length ≤ 1 := by
  by_cases hnames : ∀ m ∈ ms, m.1.isSome
  · by_cases honce : ∀ name ∈ memberNames, (given ms name).length ≤ 1
    · exact .inr ⟨hnames, honce⟩
    · simp only [not_forall, not_le] at honce
      obtain ⟨name, hname, htwice⟩ := honce
      exact .inl (Record.ofJson?_twice hname htwice)
  · simp only [not_forall] at hnames
    obtain ⟨m, hm, hnone⟩ := hnames
    refine .inl ?_
    rw [Record.ofJson?, known_eq_none hm (Option.not_isSome_iff_eq_none.mp hnone), Option.bind_none]

section

variable {low high low' high' : Json}

theorem halved_object {ms : List (Option String × Json)} (hlow : given ms "SizeLo" = [low])
    (hhigh : given ms "SizeHi" = [high]) (low' high' : Json) :
    (Record.ofJson? memberNames (.object ms) = none ∧
        Record.ofJson? memberNames (withHalves low' high' (.object ms)) = none) ∨
      ∃ r r', Halved (.object ms) low high low' high' r r' := by
  have hgiven := given_replaced low' high' ms
  rw [withHalves]
  generalize hms' : (ms.map fun m => (m.1, if m.1 = some "SizeLo" then low' else
    if m.1 = some "SizeHi" then high' else m.2)) = ms' at hgiven
  have hnames : (∀ m ∈ ms', m.1.isSome) ↔ ∀ m ∈ ms, m.1.isSome := by
    rw [← hms', List.forall_mem_map]
  have hlength : ∀ name, (given ms' name).length = (given ms name).length := by
    intro name
    rw [hgiven, List.length_map]
  obtain hnone | ⟨hall, honce⟩ := ofJson?_object_cases ms
  · obtain hnone' | ⟨hall', honce'⟩ := ofJson?_object_cases ms'
    · exact .inl ⟨hnone, hnone'⟩
    · obtain ⟨r, hr, -⟩ := Record.ofJson?_once (hnames.mp hall')
        fun name hname => hlength name ▸ honce' name hname
      rw [hr] at hnone
      cases hnone
  · obtain ⟨r, hr, hget⟩ := Record.ofJson?_once hall honce
    obtain ⟨r', hr', hreplaced⟩ := Record.ofJson?_once (hnames.mpr hall)
      fun name hname => (hlength name).symm ▸ honce name hname
    refine .inr ⟨r, r', hr, ?_, ?_, ?_, ?_, ?_, ?_⟩
    · rw [withHalves, hms', hr']
    · intro name hname hne hne'
      rw [hget name hname, hreplaced name hname, hgiven]
      simp [hne, hne']
    · rw [hget "SizeLo" (by decide), hlow, List.head?_cons]
    · rw [hget "SizeHi" (by decide), hhigh, List.head?_cons]
    · rw [hreplaced "SizeLo" (by decide), hgiven, hlow]
      rfl
    · rw [hreplaced "SizeHi" (by decide), hgiven, hhigh]
      rfl

theorem halved_array {vs : List Json} (hlow : vs[7]? = some low) (hhigh : vs[8]? = some high)
    (low' high' : Json) :
    (Record.ofJson? memberNames (.array vs) = none ∧
        Record.ofJson? memberNames (withHalves low' high' (.array vs)) = none) ∨
      ∃ r r', Halved (.array vs) low high low' high' r r' := by
  have hlength : ((vs.set 7 low').set 8 high').length = vs.length := by simp
  have hlong : 8 < vs.length := (List.getElem?_eq_some_iff.mp hhigh).1
  have hlowPlace : memberNames[7]? = some "SizeLo" := rfl
  have hhighPlace : memberNames[8]? = some "SizeHi" := rfl
  by_cases hle : vs.length ≤ memberNames.length
  · refine .inr ⟨⟨memberNames.zip vs⟩, ⟨memberNames.zip ((vs.set 7 low').set 8 high')⟩,
      if_pos hle, if_pos (hlength.symm ▸ hle), ?_, ?_, ?_, ?_, ?_⟩
    · intro name hname hne hne'
      obtain ⟨place, hplace⟩ := List.mem_iff_getElem?.mp hname
      have hplaceLow : place ≠ 7 := by
        rintro rfl
        exact hne (Option.some.inj (hplace.symm.trans hlowPlace))
      have hplaceHigh : place ≠ 8 := by
        rintro rfl
        exact hne' (Option.some.inj (hplace.symm.trans hhighPlace))
      rw [Record.get?_zip memberNames_nodup _ hplace, Record.get?_zip memberNames_nodup _ hplace,
        List.getElem?_set_ne hplaceHigh.symm, List.getElem?_set_ne hplaceLow.symm]
    · rw [Record.get?_zip memberNames_nodup _ hlowPlace, hlow]
    · rw [Record.get?_zip memberNames_nodup _ hhighPlace, hhigh]
    · rw [Record.get?_zip memberNames_nodup _ hlowPlace, List.getElem?_set_ne (by decide),
        List.getElem?_set_self (by omega)]
    · rw [Record.get?_zip memberNames_nodup _ hhighPlace,
        List.getElem?_set_self (by simpa using hlong)]
  · exact .inl ⟨if_neg hle, if_neg (hlength.symm ▸ hle)⟩

/-- A document that gives both halves has a record for every choice of them, or for none. -/
theorem halved_of_gives {j : Json} (hlow : Gives j "SizeLo" low) (hhigh : Gives j "SizeHi" high)
    (low' high' : Json) :
    (Record.ofJson? memberNames j = none ∧
        Record.ofJson? memberNames (withHalves low' high' j) = none) ∨
      ∃ r r', Halved j low high low' high' r r' := by
  cases hlow with
  | member hlow =>
    cases hhigh with
    | member hhigh => exact halved_object hlow hhigh low' high'
  | @element _ place _ _ hplace hlow =>
    cases hhigh with
    | @element _ place' _ _ hplace' hhigh =>
      obtain rfl : 7 = place :=
        (List.getElem?_inj (show 7 < memberNames.length by decide) memberNames_nodup).mp hplace.symm
      obtain rfl : 8 = place' :=
        (List.getElem?_inj (show 8 < memberNames.length by decide) memberNames_nodup).mp
          hplace'.symm
      exact halved_array hlow hhigh low' high'

theorem legible_withHalves {j : Json} (h : j.Legible) (hlow : low.Legible) (hhigh : high.Legible) :
    (withHalves low high j).Legible := by
  cases h with
  | @object ms hms =>
    refine .object (List.forall_mem_map.mpr fun m hm => ?_)
    dsimp only
    split_ifs
    · exact hlow
    · exact hhigh
    · exact hms m hm
  | @array vs hvs =>
    refine .array fun v hv => ?_
    obtain hv | rfl := List.mem_or_eq_of_mem_set hv
    · obtain hv | rfl := List.mem_or_eq_of_mem_set hv
      · exact hvs v hv
      · exact hlow
    · exact hhigh
  | null => exact .null
  | bool b => exact .bool b
  | number hn => exact .number hn
  | text t => exact .text t

end

theorem isHalf_zero : IsHalf (.ofInt 0) 0 :=
  ⟨.ofInt 0, rfl, ⟨rfl, rfl, by decide, by decide⟩, by decide, by decide⟩

/-- The size of an item is what the halves that its document gives join to. -/
theorem decode?_halves (text : String) (j low high : Json) (hparse : Json.parse? text = some j)
    (hlow : Gives j "SizeLo" low) (hhigh : Gives j "SizeHi" high) :
    SizedByHalves j low high (decode? text) := by
  have hdecode : decode? text = (Record.ofJson? memberNames j).bind ofRecord? := by
    rw [decode?, hparse, Option.bind_some, ofJson?]
  have hzero : (Json.ofInt 0).Legible := Json.legible_ofInt 0
  have hrender : decode? (withHalves (.ofInt 0) (.ofInt 0) j).render =
      (Record.ofJson? memberNames (withHalves (.ofInt 0) (.ofInt 0) j)).bind ofRecord? := by
    have hlegible := legible_withHalves (Json.legible_of_parse? hparse) hzero hzero
    rw [decode?, Json.parse?_render hlegible, Option.bind_some, ofJson?]
  have haccepted : ∀ (n : UInt64) (lo hi : ℤ), IsHalf low lo → IsHalf high hi →
      lo ≡ n.toNat [ZMOD 2 ^ 32] → hi ≡ (n.toNat / 2 ^ 32 : ℕ) [ZMOD 2 ^ 32] →
      decode? text = (decode? (withHalves (.ofInt 0) (.ofInt 0) j).render).map (withBytes n) := by
    intro n lo hi hlo hhi hlowEq hhighEq
    rw [hdecode, hrender]
    obtain ⟨hnone, hnone'⟩ | ⟨r, r', h⟩ := halved_of_gives hlow hhigh (.ofInt 0) (.ofInt 0)
    · rw [hnone, hnone']
      rfl
    · rw [h.record, h.replaced, Option.bind_some, Option.bind_some]
      have hlowHalf := bind_sizeHalf? h.low hlo
      have hhighHalf := bind_sizeHalf? h.high hhi
      rw [half_eq hlowEq] at hlowHalf
      rw [half_eq hhighEq] at hhighHalf
      exact ofRecord?_eq_map h.same hlowHalf hhighHalf (bind_sizeHalf? h.newLow isHalf_zero)
        (bind_sizeHalf? h.newHigh isHalf_zero)
  constructor
  case joined =>
    intro n lo hi hlo hhi hlowEq hhighEq item hitem
    rw [haccepted n lo hi hlo hhi hlowEq hhighEq] at hitem
    obtain ⟨item', -, rfl⟩ := Option.map_eq_some_iff.mp hitem
    exact sizeBytes_withBytes n item'
  case accepted => exact haccepted
  case refused =>
    intro hunfit
    rw [hdecode]
    obtain ⟨hnone, -⟩ | ⟨r, r', h⟩ := halved_of_gives hlow hhigh (.ofInt 0) (.ofInt 0)
    · rw [hnone, Option.bind_none]
    · rw [h.record, Option.bind_some, Option.eq_none_iff_forall_ne_some]
      intro item hitem
      rw [ofRecord?_eq_some_iff] at hitem
      obtain hunfit | hunfit := hunfit
      · have hfield := hitem "SizeLo" (by decide)
        rw [h.low] at hfield
        simp [fieldOf?, readField?, sizeHalf?_of_unfit hunfit, field?] at hfield
      · have hfield := hitem "SizeHi" (by decide)
        rw [h.high] at hfield
        simp [fieldOf?, readField?, sizeHalf?_of_unfit hunfit, field?] at hfield

/-- An item of three gibibytes, with a low half below zero and a high half of more than 32 bits. -/
def signedMembers : List (Option String × Json) :=
  [(some "SizeHi", .ofInt 4294967296), (some "URL", .ofString "u"),
    (some "SizeLo", .ofInt (-1073741824))]

def signedHalves : String := "\x7b\"SizeHi\":4294967296,\"URL\":\"u\",\"SizeLo\":-1073741824\x7d"

theorem parse?_signedHalves : Json.parse? signedHalves = some (.object signedMembers) := by
  have hwritten : Json.render (.object signedMembers) = signedHalves := by decide +kernel
  rw [← hwritten]
  refine Json.parse?_render (.object ?_)
  simp [signedMembers, Json.legible_ofInt, Json.legible_ofString]

theorem signed_halves_joined :
    SizedByHalves (.object signedMembers) (.ofInt (-1073741824)) (.ofInt 4294967296)
        (decode? signedHalves) ∧
      (decode? signedHalves).map sizeBytes = some (3 * 2 ^ 30) := by
  refine ⟨decode?_halves signedHalves _ _ _ parse?_signedHalves (.member rfl) (.member rfl),
    ?_⟩
  rw [decode?, parse?_signedHalves]
  decide +kernel

end Item

end FeedDesk
