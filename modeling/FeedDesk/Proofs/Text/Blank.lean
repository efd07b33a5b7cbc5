import FeedDesk.Text.Blank
import Mathlib.Data.List.DropRight
import Mathlib.Data.List.TakeWhile

/-!
# Trimmed texts

Trimming a text leaves what stands between the white space at its ends and has none at its own.
There is exactly one such part, and it is empty exactly if the text is blank.
-/
namespace FeedDesk.Text

variable {p : Char → Bool} {cs core front back : List Char}

/-- A part of a list between elements that satisfy `p`, which begins and ends with none of them. -/
structure Trims (p : Char → Bool) (cs core : List Char) : Prop where
  around : ∃ front back, cs = front ++ core ++ back ∧ front.all p = true ∧ back.all p = true
  head : ∀ c, core.head? = some c → p c = false
  last : ∀ c, core.getLast? = some c → p c = false

theorem head_dropWhile (cs : List Char) {c : Char} (h : (cs.dropWhile p).head? = some c) :
    p c = false := by
  simpa [h] using List.head?_dropWhile_not p cs

theorem dropWhile_append_of_all (hfront : front.all p = true)
    (hhead : ∀ c, cs.head? = some c → p c = false) : (front ++ cs).dropWhile p = cs := by
  rw [List.dropWhile_append_of_pos (List.all_eq_true.mp hfront)]
  cases cs with
  | nil => rfl
  | cons c cs => exact List.dropWhile_cons_of_neg (by simp [hhead c rfl])

theorem rdropWhile_append_of_all (hback : back.all p = true)
    (hlast : ∀ c, cs.getLast? = some c → p c = false) : (cs ++ back).rdropWhile p = cs := by
  have hends : ∀ c, cs.reverse.head? = some c → p c = false := by
    rw [List.head?_reverse]
    exact hlast
  rw [List.rdropWhile, List.reverse_append, dropWhile_append_of_all (by simpa using hback) hends,
    List.reverse_reverse]

theorem trimBy_eq_nil_iff : trimBy p cs = [] ↔ cs.all p = true := by
  rw [trimBy, List.reverse_eq_nil_iff, List.dropWhile_eq_nil_iff, List.all_eq_true]
  constructor
  · intro h c hc
    rw [← List.takeWhile_append_dropWhile (p := p) (l := cs)] at hc
    rcases List.mem_append.mp hc with hfront | hback
    · exact List.all_eq_true.mp List.all_takeWhile c hfront
    · exact h c (List.mem_reverse.mpr hback)
  · intro h c hc
    exact h c ((List.dropWhile_suffix p).mem (List.mem_reverse.mp hc))

theorem trims_trimBy (p : Char → Bool) (cs : List Char) : Trims p cs (trimBy p cs) where
  around := by
    refine ⟨cs.takeWhile p, (cs.dropWhile p).rtakeWhile p, ?_, List.all_takeWhile, ?_⟩
    · have hmiddle : trimBy p cs ++ (cs.dropWhile p).rtakeWhile p = cs.dropWhile p :=
        List.rdropWhile_append_rtakeWhile
      rw [List.append_assoc, hmiddle, List.takeWhile_append_dropWhile]
    · exact List.all_eq_true.mpr fun c hc => List.mem_rtakeWhile_imp hc
  head c hc := by
    have hbegin : trimBy p cs <+: cs.dropWhile p := List.rdropWhile_prefix p _
    obtain ⟨tail, htail⟩ := hbegin
    apply head_dropWhile cs
    rw [← htail, List.head?_append, hc, Option.some_or]
  last c hc := by
    rw [trimBy, List.getLast?_reverse] at hc
    exact head_dropWhile _ hc

theorem trimBy_eq_iff : trimBy p cs = core ↔ Trims p cs core := by
  refine ⟨fun h => h ▸ trims_trimBy p cs, ?_⟩
  rintro ⟨⟨front, back, rfl, hfront, hback⟩, hhead, hlast⟩
  cases core with
  | nil => exact trimBy_eq_nil_iff.mpr (by simp [hfront, hback])
  | cons c core =>
    have hfirst : ∀ d, (c :: core ++ back).head? = some d → p d = false := fun d hd => hhead d hd
    rw [trimBy, List.append_assoc, dropWhile_append_of_all hfront hfirst]
    exact rdropWhile_append_of_all hback hlast

theorem isAllBlank_iff {s : String} : isAllBlank s = true ↔ trim s = "" := by
  rw [← String.toList_inj, toList_trim, String.toList_empty, trimBy_eq_nil_iff, isAllBlank]

end FeedDesk.Text
