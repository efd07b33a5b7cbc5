import FeedDesk.Console.Table
import Mathlib.Logic.Function.Basic

/-!
# Names with soft breaks

Soft breaks lose nothing of a name. What is written for a character begins with the character and
is settled by it, so a name can be read back piece by piece, also where it has soft breaks of its
own behind dots and underscores. Only the printed line, from which every soft break is taken out,
no longer tells the name's own ones.
-/
namespace FeedDesk.Text

/-- Writes a character behind a text, and a soft break if a name may wrap there. -/
def writeBroken (out : String) (c : Char) : String :=
  if wrapsAfter c then (out.push c).push softBreak else out.push c

/-- What a way to mark the places at which names may wrap keeps of the names. -/
structure LosesNothing (mark : String → String) : Prop where
  append : ∀ s t, mark (s ++ t) = mark s ++ mark t
  injective : Function.Injective mark
  written : ∀ s, mark s = s.toList.foldl writeBroken ""
  cleared : ∀ s, withoutSoftBreaks (mark s) = withoutSoftBreaks s
  restored_iff : ∀ s, withoutSoftBreaks (mark s) = s ↔ softBreak ∉ s.toList

/-! ## Names as characters -/

section
variable {cs s t : List Char}

theorem insertBreaks_of_plain (h : cs.any wrapsAfter = false) : insertBreaks cs = cs := by
  induction cs with
  | nil => rfl
  | cons c cs ih =>
    obtain ⟨hc, hcs⟩ := Bool.or_eq_false_iff.mp h
    rw [insertBreaks_cons, hc, ih hcs]
    rfl

/-- A name without a place to wrap at is the same with and without a look at every character. -/
theorem toList_withSoftBreaks (name : String) :
    (withSoftBreaks name).toList = insertBreaks name.toList := by
  unfold withSoftBreaks
  split
  · exact String.toList_ofList
  next h => exact (insertBreaks_of_plain (Bool.eq_false_iff.mpr h)).symm

theorem toList_foldl_writeBroken (out : String) (cs : List Char) :
    (cs.foldl writeBroken out).toList = out.toList ++ insertBreaks cs := by
  induction cs generalizing out with
  | nil => simp
  | cons c cs ih =>
    rw [List.foldl_cons, ih, insertBreaks_cons]
    unfold writeBroken
    split <;> simp

/-- The pieces of two names are the same only if the names are: the first characters of the
pieces are those of the names, and equal characters are followed by equal breaks. -/
theorem insertBreaks_inj : insertBreaks s = insertBreaks t ↔ s = t := by
  refine ⟨fun h => ?_, congrArg insertBreaks⟩
  have hcons (c : Char) (cs : List Char) :
      insertBreaks (c :: cs) = c :: ((if wrapsAfter c then [softBreak] else []) ++
        insertBreaks cs) := by
    rw [insertBreaks_cons]
    split <;> rfl
  induction s generalizing t with
  | nil =>
    cases t with
    | nil => rfl
    | cons d t => rw [hcons, insertBreaks_nil] at h; cases h
  | cons c s ih =>
    cases t with
    | nil => rw [hcons, insertBreaks_nil] at h; cases h
    | cons d t =>
      rw [hcons, hcons] at h
      obtain ⟨rfl, hrest⟩ := List.cons.inj h
      rw [ih (List.append_cancel_left hrest)]

/-- The breaks that were put in are those that are taken out, beside the name's own. -/
theorem filter_insertBreaks (cs : List Char) :
    (insertBreaks cs).filter (· != softBreak) = cs.filter (· != softBreak) := by
  induction cs with
  | nil => rfl
  | cons c cs ih =>
    have hbreak : [c, softBreak].filter (· != softBreak) = [c].filter (· != softBreak) := by
      simp [List.filter_cons]
    have hpiece : (if wrapsAfter c then [c, softBreak] else [c]).filter (· != softBreak) =
        [c].filter (· != softBreak) := by
      split
      · exact hbreak
      · rfl
    rw [insertBreaks_cons, List.filter_append, hpiece, ih, ← List.filter_append]
    rfl

end

/-! ## Names -/

theorem withSoftBreaks_inj {s t : String} : withSoftBreaks s = withSoftBreaks t ↔ s = t := by
  rw [← String.toList_inj, toList_withSoftBreaks, toList_withSoftBreaks, insertBreaks_inj,
    String.toList_inj]

theorem withoutSoftBreaks_withSoftBreaks (s : String) :
    withoutSoftBreaks (withSoftBreaks s) = withoutSoftBreaks s := by
  rw [withoutSoftBreaks, withoutSoftBreaks, toList_withSoftBreaks, filter_insertBreaks]

theorem withoutSoftBreaks_eq_self_iff {s : String} :
    withoutSoftBreaks s = s ↔ softBreak ∉ s.toList := by
  rw [withoutSoftBreaks, ← String.toList_inj, String.toList_ofList, List.filter_eq_self]
  constructor
  · intro h hmem
    simpa using h softBreak hmem
  · intro h c hc
    exact bne_iff_ne.mpr fun hbreak => h (hbreak ▸ hc)

/-- Putting soft breaks in keeps names apart, and so does not lose the ones they have. -/
theorem losesNothing_withSoftBreaks : LosesNothing withSoftBreaks where
  append s t := by
    rw [← String.toList_inj, toList_withSoftBreaks, String.toList_append, insertBreaks_append,
      String.toList_append, toList_withSoftBreaks, toList_withSoftBreaks]
  injective _ _ := withSoftBreaks_inj.mp
  written s := by
    rw [← String.toList_inj, toList_withSoftBreaks, toList_foldl_writeBroken, String.toList_empty,
      List.nil_append]
  cleared := withoutSoftBreaks_withSoftBreaks
  restored_iff s := by rw [withoutSoftBreaks_withSoftBreaks, withoutSoftBreaks_eq_self_iff]

/-- Soft breaks lose nothing of a name: rows are shown under one name only if the items go by one
name, and the printed line of a row is that of its name without soft breaks. -/
theorem soft_breaks_lose_nothing :
    LosesNothing withSoftBreaks ∧
      (∀ (naming naming' : Naming) (clock clock' : Clock) (item item' : Item),
        (Row.ofItem naming clock item).name = (Row.ofItem naming' clock' item').name ↔
          naming.nameOf item = naming'.nameOf item') ∧
      ∀ (naming : Naming) (clock : Clock) (item : Item),
        Console.rowLine (.ofItem naming clock item) =
          Console.columns item.status.label
            (stripControl (withoutSoftBreaks (naming.nameOf item)))
            (stripControl item.category) (Age.text item.time clock.zone clock.now)
            item.sizeText := by
  refine ⟨losesNothing_withSoftBreaks, fun _ _ _ _ _ _ => withSoftBreaks_inj, ?_⟩
  intro naming clock item
  rw [Console.rowLine, Row.ofItem, withoutSoftBreaks_withSoftBreaks]

/-- Taking all soft breaks out does not undo putting some in: a name may have its own. -/
example : withoutSoftBreaks (withSoftBreaks "a.\u200bb") = "a.b" := by decide

end FeedDesk.Text
