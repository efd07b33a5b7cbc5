import FeedDesk.Dispatch.Defaults
import FeedDesk.Proofs.Number.Integer
import FeedDesk.Proofs.Text.Blank

/-!
# Priorities read from texts

A priority text says the integer that is left of it without the white space around it, if an
integer is left and fits in 32 bits. Any other text stands for zero, and is worth a warning unless
nothing is left at all. A written priority is read back, whatever white space is put around it.
-/
namespace FeedDesk

open Number Text

/-- The priority that a text says. -/
def SaysPriority (text : String) (n : Int) : Prop :=
  ∃ core, Trims isBlank text.toList core ∧ IsInteger core n ∧ -2 ^ 31 ≤ n ∧ n ≤ 2 ^ 31 - 1

/-- Defaults that follow from a category text and a priority text, with some number of warnings. -/
structure DispatchDefaults.Follows (d : DispatchDefaults) (warnings : Nat)
    (category priority : String) : Prop where
  category_eq : d.category = category
  priority_iff : ∀ n : Int, d.priority.toInt = n ↔
    SaysPriority priority n ∨ (n = 0 ∧ ∀ m, ¬ SaysPriority priority m)
  warned_iff : warnings = 1 ↔
    ¬ Trims isBlank priority.toList [] ∧ ∀ m, ¬ SaysPriority priority m
  warned_once : warnings ≤ 1

/-! ## Texts -/

section
variable {core front back : List Char} {text : String} {n : Int}

theorem Number.IsInteger.not_blank (h : IsInteger core n) : ∀ c ∈ core, isBlank c = false := by
  intro c hc
  rcases h.mem c hc with hdigit | rfl | rfl
  · have hall : ∀ d < 10, isBlank (digitChar d) = false := by decide
    rw [← digitChar_digitValue hdigit]
    exact hall _ (digitValue_lt hdigit)
  · decide
  · decide

theorem Number.IsInteger.ne_nil (h : IsInteger core n) : core ≠ [] := by
  cases h with
  | unsigned hm => exact hm.1
  | positive | negative => exact List.cons_ne_nil _ _

/-- White space around an integer is all that trimming takes away. -/
theorem Number.IsInteger.trims (h : IsInteger core n) (hfront : front.all isBlank = true)
    (hback : back.all isBlank = true) : Trims isBlank (front ++ core ++ back) core where
  around := ⟨front, back, rfl, hfront, hback⟩
  head c hc := h.not_blank c (List.mem_of_head? hc)
  last c hc := h.not_blank c (List.mem_of_getLast? hc)

theorem saysPriority_iff : SaysPriority text n ↔
    readIntIn? (-Int.pow 2 31) (Int.pow 2 31 - 1) (trimBy isBlank text.toList) = some n := by
  rw [readIntIn?_eq_some_iff]
  constructor
  · rintro ⟨core, hcore, h⟩
    rw [trimBy_eq_iff.mpr hcore]
    exact h
  · exact fun h => ⟨_, trims_trimBy _ _, h⟩

theorem SaysPriority.unique {m : Int} (hm : SaysPriority text m) (hn : SaysPriority text n) :
    m = n :=
  Option.some.inj ((saysPriority_iff.mp hm).symm.trans (saysPriority_iff.mp hn))

theorem SaysPriority.toInt_eq (h : SaysPriority text n) : (Int32.ofInt n).toInt = n := by
  obtain ⟨core, -, -, hlow, hhigh⟩ := h
  exact Int32.toInt_ofInt_of_le hlow (by omega)

theorem not_saysPriority_of_blank (h : Trims isBlank text.toList []) : ¬ SaysPriority text n := by
  rintro ⟨core, hcore, hint, -⟩
  have hnil : core = [] := (trimBy_eq_iff.mpr hcore).symm.trans (trimBy_eq_iff.mpr h)
  exact hint.ne_nil hnil

/-- A text is blank, or says a priority, or is worth a warning. -/
theorem PriorityOption.read_cases (text : String) :
    (read text = unset ∧ Trims isBlank text.toList []) ∨
      (∃ n, read text = given (.ofInt n) ∧ SaysPriority text n) ∨
      (read text = unreadable ∧ ¬ Trims isBlank text.toList [] ∧
        ∀ n, ¬ SaysPriority text n) := by
  simp only [saysPriority_iff, ← trimBy_eq_iff]
  unfold read
  split
  next h => exact .inl ⟨rfl, h⟩
  next h =>
    split
    next n hn => exact .inr (.inl ⟨n, rfl, hn⟩)
    next hn => exact .inr (.inr ⟨rfl, h, fun n hsome => by rw [hn] at hsome; cases hsome⟩)

end

/-! ## Defaults -/

namespace DispatchDefaults

theorem follows_ofOptions (category priority : String) :
    (ofOptions category priority).Follows (PriorityOption.read priority).warnings category
      priority := by
  have hzero (hsilent : ∀ m, ¬ SaysPriority priority m) (n : Int) : (0 : Int32).toInt = n ↔
      SaysPriority priority n ∨ (n = 0 ∧ ∀ m, ¬ SaysPriority priority m) :=
    ⟨fun h => .inr ⟨h.symm, hsilent⟩, fun h => (h.resolve_left (hsilent n)).1.symm⟩
  rcases PriorityOption.read_cases priority with ⟨hread, hblank⟩ | ⟨m, hread, hsaid⟩ |
    ⟨hread, hnot, hsilent⟩ <;> rw [ofOptions, hread]
  · refine ⟨rfl, hzero fun _ => not_saysPriority_of_blank hblank, ?_, Nat.zero_le 1⟩
    exact iff_of_false Nat.zero_ne_one fun h => h.1 hblank
  · refine ⟨rfl, fun n => ?_, ?_, Nat.zero_le 1⟩
    · change (Int32.ofInt m).toInt = n ↔ _
      rw [hsaid.toInt_eq]
      constructor
      · rintro rfl
        exact .inl hsaid
      · rintro (h | ⟨-, hsilent⟩)
        · exact hsaid.unique h
        · exact absurd hsaid (hsilent m)
    · exact iff_of_false Nat.zero_ne_one fun h => h.2 m hsaid
  · exact ⟨rfl, hzero hsilent, iff_of_true rfl ⟨hnot, hsilent⟩, Nat.le_refl 1⟩

/-- A written priority says itself, whatever white space is around it. -/
theorem saysPriority_repr (n : Int32) {front back : String} (hfront : isAllBlank front = true)
    (hback : isAllBlank back = true) :
    SaysPriority (front ++ Int.repr n.toInt ++ back) n.toInt := by
  have hrange : -2 ^ 31 ≤ n.toInt ∧ n.toInt ≤ 2 ^ 31 - 1 := by
    have hlow := n.le_toInt
    have hhigh := n.toInt_lt
    omega
  refine ⟨(Int.repr n.toInt).toList, ?_, isInteger_repr _, hrange⟩
  rw [String.toList_append, String.toList_append]
  exact (isInteger_repr n.toInt).trims hfront hback

/-- The category of all defaults is the category text, and their priority is the integer that the
priority text says, or else zero. There is one warning exactly if something is left of the
priority text that says nothing. Every priority is read back as it is written. -/
theorem ofOptions_reads_priority :
    (∀ category priority : String,
      (ofOptions category priority).Follows (PriorityOption.read priority).warnings category
        priority) ∧
    ∀ (category : String) (n : Int32) (front back : String), isAllBlank front = true →
      isAllBlank back = true →
      ofOptions category (front ++ Int.repr n.toInt ++ back) = ⟨category, n⟩ ∧
        (PriorityOption.read (front ++ Int.repr n.toInt ++ back)).warnings = 0 := by
  refine ⟨follows_ofOptions, fun category n front back hfront hback => ?_⟩
  have hsaid := saysPriority_repr n hfront hback
  obtain ⟨-, hpriority, hwarned, honce⟩ :=
    follows_ofOptions category (front ++ Int.repr n.toInt ++ back)
  have heq := Int32.toInt_inj.mp ((hpriority n.toInt).mpr (.inl hsaid))
  have hunwarned := fun h => (hwarned.mp h).2 _ hsaid
  exact ⟨congrArg (mk category) heq, Nat.lt_one_iff.mp (Nat.lt_of_le_of_ne honce hunwarned)⟩

/-- The lowest priority is read back from among several kinds of white space, and the number below
it is no priority. -/
theorem lowest_priority_read :
    isAllBlank "\u3000\t" = true ∧ isAllBlank "\u2028" = true ∧
      ofOptions "TV" ("\u3000\t" ++ Int.repr Int32.minValue.toInt ++ "\u2028") =
        ⟨"TV", Int32.minValue⟩ ∧
      (PriorityOption.read
        ("\u3000\t" ++ Int.repr Int32.minValue.toInt ++ "\u2028")).warnings = 0 ∧
      (ofOptions "TV" "-2147483649").Follows 1 "TV" "-2147483649" := by
  have hblank : isAllBlank "\u3000\t" = true ∧ isAllBlank "\u2028" = true := by decide
  obtain ⟨hread, hunwarned⟩ :=
    ofOptions_reads_priority.2 "TV" Int32.minValue _ _ hblank.1 hblank.2
  exact ⟨hblank.1, hblank.2, hread, hunwarned, ofOptions_reads_priority.1 "TV" "-2147483649"⟩

example : ofOptions "TV" " +007 " = ⟨"TV", 7⟩ ∧ ofOptions "TV" "+-7" = ⟨"TV", 0⟩ := by decide

end DispatchDefaults

end FeedDesk
