import FeedDesk.Feed.Projection
import FeedDesk.Text.Column
import FeedDesk.Text.Control
import Mathlib.Data.List.Basic

/-!
# Printable texts

A text is printable if it has no control character but the tab. A printable text stays so when it is
aligned, and texts that are put together are printable if their parts are. The numbers, ages and
sizes of a table are printable whatever is counted, and any text is once its control characters are
taken out.
-/
namespace FeedDesk

namespace Text

def Printable (s : String) : Prop := ∀ c ∈ s.toList, isUnprintable c = false

instance (s : String) : Decidable (Printable s) :=
  List.decidableBAll (isUnprintable · = false) s.toList

@[simp] theorem printable_append {a b : String} :
    Printable (a ++ b) ↔ Printable a ∧ Printable b := by
  simp only [Printable, String.toList_append, List.forall_mem_append]

@[simp] theorem printable_ofList {cs : List Char} :
    Printable (String.ofList cs) ↔ ∀ c ∈ cs, isUnprintable c = false := by
  simp only [Printable, String.toList_ofList]

@[simp] theorem printable_stripControl (s : String) : Printable (stripControl s) :=
  stripControl_clean s

theorem not_unprintable_fill (width : Nat) (s : String) :
    ∀ c ∈ fill width s, isUnprintable c = false := by
  intro c hc
  obtain rfl := List.eq_of_mem_replicate hc
  decide

@[simp] theorem printable_alignLeft {width : Nat} {s : String} :
    Printable (alignLeft width s) ↔ Printable s := by
  rw [alignLeft, printable_ofList, List.forall_mem_append]
  exact and_iff_left (not_unprintable_fill width s)

@[simp] theorem printable_alignRight {width : Nat} {s : String} :
    Printable (alignRight width s) ↔ Printable s := by
  rw [alignRight, printable_ofList, List.forall_mem_append]
  exact and_iff_right (not_unprintable_fill width s)

/-! ## Numbers -/

theorem not_unprintable_of_range {c : Char} (hlow : 0x20 ≤ c.toNat) (hhigh : c.toNat < 0x7f) :
    isUnprintable c = false := by
  have hnotLow : ¬ c.toNat < 0x20 := Nat.not_lt.mpr hlow
  have hnotHigh : ¬ 0x7f ≤ c.toNat := Nat.not_le.mpr hhigh
  simp [isUnprintable, isControl, hnotLow, hnotHigh]

theorem not_unprintable_of_isDigit {c : Char} (h : c.isDigit = true) :
    isUnprintable c = false := by
  have hrange : 48 ≤ c.toNat ∧ c.toNat ≤ 57 := by
    simpa [Char.isDigit, UInt32.le_iff_toNat_le] using h
  exact not_unprintable_of_range (by omega) (by omega)

theorem not_unprintable_toDigits (n : Nat) :
    ∀ c ∈ Nat.toDigits 10 n, isUnprintable c = false := by
  intro c hc
  exact not_unprintable_of_isDigit (Nat.isDigit_of_mem_toDigits (by decide) (by decide) hc)

@[simp] theorem printable_natRepr (n : Nat) : Printable (Nat.repr n) := by
  intro c hc
  rw [Nat.toList_repr] at hc
  exact not_unprintable_toDigits n c hc

@[simp] theorem printable_intRepr (i : Int) : Printable (Int.repr i) := by
  cases i with
  | ofNat n => exact printable_natRepr n
  | negSucc n =>
    have hsign : Printable "-" := by decide
    exact printable_append.mpr ⟨hsign, printable_natRepr _⟩

end Text

open Text

namespace Number

theorem not_unprintable_fixed (places : Nat) (negative : Bool) (num den : Nat) :
    ∀ c ∈ fixed places negative num den, isUnprintable c = false := by
  have hdigits : ∀ width n, ∀ c ∈ lastDigits width n, isUnprintable c = false := by
    intro width n
    refine List.forall_mem_append.mpr ⟨fun c hc => ?_, not_unprintable_toDigits _⟩
    obtain rfl := List.eq_of_mem_replicate hc
    decide
  have hplaced : ∀ units, ∀ c ∈ placePoint places units, isUnprintable c = false := by
    intro units
    unfold placePoint
    split
    · exact not_unprintable_toDigits _
    · refine List.forall_mem_append.mpr ⟨not_unprintable_toDigits _, ?_⟩
      exact List.forall_mem_cons.mpr ⟨by decide, hdigits places units⟩
  refine List.forall_mem_append.mpr ⟨?_, hplaced _⟩
  cases negative with
  | false => exact List.forall_mem_nil _
  | true => exact List.forall_mem_singleton.mpr (by decide)

end Number

/-! ## The columns of a table -/

theorem ItemStatus.printable_label (s : ItemStatus) : Printable s.label := by
  cases s <;> decide

theorem StatusFilter.printable_label (f : StatusFilter) : Printable f.label := by
  cases f <;> decide

theorem Naming.printable_header (n : Naming) : Printable n.header := by
  cases n <;> decide

theorem Age.printable_text (time : Int64) (zone : Int32) (now : Int64) :
    Printable (text time zone now) := by
  have hunit : ∀ unit : Scale, Printable unit.letter := by
    intro unit
    cases unit <;> decide
  unfold text
  split
  · decide
  · have hblank : Printable " " := by decide
    simp [hblank, hunit]

namespace Size

theorem printable_amount (b : Band) (x : Number.Binary64) : Printable (amount b x) := by
  cases x with
  | finite s m e =>
    rw [amount, printable_ofList]
    exact Number.not_unprintable_fixed _ _ _ _
  | infinite s =>
    rw [amount]
    split <;> decide
  | nan =>
    rw [amount]
    decide

theorem printable_unit (x : Number.Binary64) : Printable (band x).unit := by
  unfold band
  split
  · decide
  · split
    · decide
    · split
      · decide
      · split <;> decide

theorem printable_text (x : Number.Binary64) (bytes : Nat) : Printable (text x bytes) := by
  have hblank : Printable " " := by decide
  have hsize : ∀ x, Printable (ofMegabytes x) := by
    intro x
    simp [ofMegabytes, hblank, printable_amount, printable_unit]
  unfold text
  split
  · exact hsize _
  · split
    · exact hsize _
    · decide

end Size

theorem Item.printable_sizeText (item : Item) : Printable item.sizeText := by
  unfold sizeText
  split
  · decide
  · exact Size.printable_text _ _

end FeedDesk
