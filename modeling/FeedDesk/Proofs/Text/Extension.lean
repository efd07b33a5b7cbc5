import FeedDesk.Text.Extension
import Mathlib.Data.List.DropRight

/-!
# Names with an extension

The end of a name is looked at by its bytes. It is found to be the extension exactly if the last
four characters are: the extension is made of characters of one byte, and a cut inside a character
is none. So a name gets the extension once, behind all that it had, and a name that has it in any
letter case stays as it is.
-/
namespace FeedDesk.Text

/-- The extension in any letter case. -/
def IsNzbExtension (cs : List Char) : Prop :=
  ∃ n ∈ ['n', 'N'], ∃ z ∈ ['z', 'Z'], ∃ b ∈ ['b', 'B'], cs = ['.', n, z, b]

/-- Whether the last four characters of a name are the extension. -/
def EndsInNzb (name : String) : Prop := IsNzbExtension (name.toList.rtake 4)

/-- How a name becomes one that ends in the extension. The end that is compared is cut off at a
number of bytes; it is there exactly if a character begins at this place, and then it is all that
follows the place. -/
structure GetsExtension (name queued : String) : Prop where
  starts : name.toList <+: queued.toList
  ends : EndsInNzb queued
  kept_iff : queued = name ↔ EndsInNzb name
  appended : ¬ EndsInNzb name → queued = name ++ ".nzb"
  settled : ensureNzbExtension queued = queued
  cut_iff : (dropBytes (name.utf8ByteSize - 4) name.toList).isSome ↔
    (String.Pos.Raw.mk (name.utf8ByteSize - 4)).IsValid name
  cut : ∀ tail, dropBytes (name.utf8ByteSize - 4) name.toList = some tail →
    ∃ front : String, front ++ String.ofList tail = name ∧
      front.utf8ByteSize = name.utf8ByteSize - 4

/-! ## Bytes -/

section
variable {cs tail : List Char} {n : Nat}

theorem utf8Length_cons (c : Char) (cs : List Char) :
    utf8Length (c :: cs) = c.utf8Size + utf8Length cs := rfl

@[simp] theorem utf8Length_append (a b : List Char) :
    utf8Length (a ++ b) = utf8Length a + utf8Length b := by
  induction a with
  | nil => simp [utf8Length]
  | cons c a ih => rw [List.cons_append, utf8Length_cons, utf8Length_cons, ih, Nat.add_assoc]

theorem length_le_utf8Length (cs : List Char) : cs.length ≤ utf8Length cs := by
  induction cs with
  | nil => exact Nat.le_refl 0
  | cons c cs ih =>
    have hsize : 0 < c.utf8Size := c.utf8Size_pos
    rw [utf8Length_cons, List.length_cons]
    omega

theorem utf8Length_toList (s : String) : utf8Length s.toList = s.utf8ByteSize := by
  have hchars (cs : List Char) : utf8Length cs = (String.ofList cs).utf8ByteSize := by
    induction cs with
    | nil => rfl
    | cons c cs ih =>
      have hcons : String.ofList (c :: cs) = String.singleton c ++ String.ofList cs := by simp
      rw [hcons, String.utf8ByteSize_append, String.utf8ByteSize_singleton, ← ih]
      rfl
  rw [hchars, String.ofList_toList]

/-- A text is read back from its bytes. -/
theorem fromUTF8?_toUTF8 (s : String) : String.fromUTF8? s.toUTF8 = some s := by
  unfold String.fromUTF8?
  rw [String.toUTF8_eq_toByteArray, dif_pos s.isValidUTF8]
  rfl

/-- What is left behind some bytes are the characters behind those that these bytes make up. -/
theorem dropBytes_eq_some_iff :
    dropBytes n cs = some tail ↔ ∃ front, cs = front ++ tail ∧ utf8Length front = n := by
  induction n, cs using dropBytes.induct with
  | case1 cs =>
    have hempty {front : List Char} (h : utf8Length front = 0) : front = [] := by
      have hlength := length_le_utf8Length front
      exact List.length_eq_zero_iff.mp (by omega)
    rw [dropBytes, Option.some.injEq]
    constructor
    · rintro rfl
      exact ⟨[], rfl, rfl⟩
    · rintro ⟨front, rfl, hfront⟩
      rw [hempty hfront, List.nil_append]
  | case2 n =>
    rw [dropBytes]
    constructor
    · rintro ⟨⟩
    · rintro ⟨front, hcs, hfront⟩
      rw [(List.append_eq_nil_iff.mp hcs.symm).1] at hfront
      cases hfront
  | case3 n c cs hsize ih =>
    rw [dropBytes, if_pos hsize, ih]
    constructor
    · rintro ⟨front, rfl, hfront⟩
      refine ⟨c :: front, rfl, ?_⟩
      rw [utf8Length_cons, hfront, Nat.add_sub_of_le hsize]
    · rintro ⟨front, hcs, hfront⟩
      cases front with
      | nil => cases hfront
      | cons d front =>
        obtain ⟨rfl, rfl⟩ := List.cons.inj hcs
        exact ⟨front, rfl, by rw [utf8Length_cons] at hfront; omega⟩
  | case4 n c cs hsize =>
    rw [dropBytes, if_neg hsize]
    constructor
    · rintro ⟨⟩
    · rintro ⟨front, hcs, hfront⟩
      cases front with
      | nil => cases hfront
      | cons d front =>
        obtain ⟨rfl, rfl⟩ := List.cons.inj hcs
        rw [utf8Length_cons] at hfront
        omega

/-- A text is cut behind some bytes exactly if a character begins there, or the text ends. -/
theorem isSome_dropBytes_iff (s : String) (n : Nat) :
    (dropBytes n s.toList).isSome ↔ (String.Pos.Raw.mk n).IsValid s := by
  rw [Option.isSome_iff_exists, String.Pos.Raw.isValid_iff_exists_append]
  constructor
  · rintro ⟨tail, htail⟩
    obtain ⟨front, hs, hfront⟩ := dropBytes_eq_some_iff.mp htail
    refine ⟨String.ofList front, String.ofList tail, ?_, ?_⟩
    · rw [← String.ofList_append, ← hs, String.ofList_toList]
    · rw [String.Pos.Raw.ext_iff, ← hfront, ← String.toList_ofList (l := front),
        utf8Length_toList, String.toList_ofList]
      rfl
  · rintro ⟨front, tail, rfl, hn⟩
    refine ⟨tail.toList, dropBytes_eq_some_iff.mpr ⟨front.toList, String.toList_append .., ?_⟩⟩
    rw [utf8Length_toList]
    exact (congrArg String.Pos.Raw.byteIdx hn).symm

/-! ## The extension -/

theorem toLower_eq_iff {c small capital : Char} (hlow : 97 ≤ small.toNat)
    (hhigh : small.toNat ≤ 122) (hcapital : capital.toNat + 32 = small.toNat) :
    c.toLower = small ↔ c ∈ [small, capital] := by
  rw [List.mem_cons, List.mem_singleton, ← Char.toNat_inj, toNat_toLower, ← Char.toNat_inj,
    ← Char.toNat_inj]
  split <;> omega

theorem toLower_eq_dot_iff {c : Char} : c.toLower = '.' ↔ c = '.' := by
  have hnumber : '.'.toNat = 46 := rfl
  rw [← Char.toNat_inj, toNat_toLower, ← Char.toNat_inj, hnumber]
  split <;> omega

theorem sameLetters_nzbExtension : sameLetters cs nzbExtension = true ↔ IsNzbExtension cs := by
  have hn {c : Char} : c.toLower = 'n' ↔ c ∈ ['n', 'N'] :=
    toLower_eq_iff (by decide) (by decide) rfl
  have hz {c : Char} : c.toLower = 'z' ↔ c ∈ ['z', 'Z'] :=
    toLower_eq_iff (by decide) (by decide) rfl
  have hb {c : Char} : c.toLower = 'b' ↔ c ∈ ['b', 'B'] :=
    toLower_eq_iff (by decide) (by decide) rfl
  change (cs.map Char.toLower == ['.', 'n', 'z', 'b']) = true ↔ _
  simp only [beq_iff_eq, List.map_eq_cons_iff, List.map_eq_nil_iff, toLower_eq_dot_iff, hn, hz, hb]
  constructor
  · rintro ⟨_, _, rfl, rfl, n, _, rfl, hn, z, _, rfl, hz, b, _, rfl, hb, rfl⟩
    exact ⟨n, hn, z, hz, b, hb, rfl⟩
  · rintro ⟨n, hn, z, hz, b, hb, rfl⟩
    exact ⟨_, _, rfl, rfl, n, _, rfl, hn, z, _, rfl, hz, b, _, rfl, hb, rfl⟩

theorem IsNzbExtension.length_eq (h : IsNzbExtension cs) : cs.length = 4 := by
  obtain ⟨n, -, z, -, b, -, rfl⟩ := h
  rfl

/-- Each character of the extension is one byte. -/
theorem IsNzbExtension.utf8Length_eq (h : IsNzbExtension cs) : utf8Length cs = 4 := by
  obtain ⟨n, hn, z, hz, b, hb, rfl⟩ := h
  simp only [List.mem_cons, List.not_mem_nil, or_false] at hn hz hb
  obtain ⟨rfl | rfl, rfl | rfl, rfl | rfl⟩ := And.intro hn (And.intro hz hb) <;> rfl

theorem rtake_append_of_length {front : List Char} (h : tail.length = n) :
    (front ++ tail).rtake n = tail := by
  rw [← h, List.rtake, List.length_append, Nat.add_sub_cancel, List.drop_left]

/-- By its bytes a text ends in the extension exactly if its last four characters are it. -/
theorem hasNzbExtension_iff : hasNzbExtension cs = true ↔ IsNzbExtension (cs.rtake 4) := by
  have hbytes : utf8Length nzbExtension = 4 := rfl
  rw [hasNzbExtension, hbytes, Bool.and_eq_true, decide_eq_true_eq, Option.any_eq_true]
  constructor
  · rintro ⟨-, tail, htail, hletters⟩
    obtain ⟨front, rfl, -⟩ := dropBytes_eq_some_iff.mp htail
    have hext := sameLetters_nzbExtension.mp hletters
    rw [rtake_append_of_length hext.length_eq]
    exact hext
  · intro h
    have hsplit : cs = cs.rdrop 4 ++ cs.rtake 4 := (List.take_append_drop _ cs).symm
    have hlength := congrArg utf8Length hsplit
    rw [utf8Length_append, h.utf8Length_eq] at hlength
    refine ⟨by omega, cs.rtake 4, ?_, sameLetters_nzbExtension.mpr h⟩
    exact dropBytes_eq_some_iff.mpr ⟨cs.rdrop 4, hsplit, by omega⟩

end

/-! ## Names -/

variable {name : String}

theorem ensureNzbExtension_of_ends (h : EndsInNzb name) : ensureNzbExtension name = name := by
  rw [ensureNzbExtension, if_pos (hasNzbExtension_iff.mpr h)]

theorem ensureNzbExtension_of_not_ends (h : ¬ EndsInNzb name) :
    ensureNzbExtension name = name ++ ".nzb" := by
  have hextension : String.ofList nzbExtension = ".nzb" := rfl
  rw [ensureNzbExtension, if_neg fun hext => h (hasNzbExtension_iff.mp hext), String.ofList_append,
    String.ofList_toList, hextension]

theorem endsInNzb_append (name : String) : EndsInNzb (name ++ ".nzb") := by
  have hlength : ".nzb".toList.length = 4 := rfl
  rw [EndsInNzb, String.toList_append, rtake_append_of_length hlength]
  exact ⟨'n', by simp, 'z', by simp, 'b', by simp, rfl⟩

theorem endsInNzb_ensureNzbExtension (name : String) : EndsInNzb (ensureNzbExtension name) := by
  by_cases h : EndsInNzb name
  · rw [ensureNzbExtension_of_ends h]
    exact h
  · rw [ensureNzbExtension_of_not_ends h]
    exact endsInNzb_append name

/-- Every name gets the extension at its end, once. -/
theorem getsExtension (name : String) : GetsExtension name (ensureNzbExtension name) where
  starts := by
    by_cases h : EndsInNzb name
    · refine ⟨[], ?_⟩
      rw [List.append_nil, ensureNzbExtension_of_ends h]
    · rw [ensureNzbExtension_of_not_ends h, String.toList_append]
      exact List.prefix_append _ _
  ends := endsInNzb_ensureNzbExtension name
  kept_iff := by
    refine ⟨fun h => ?_, ensureNzbExtension_of_ends⟩
    have hends := endsInNzb_ensureNzbExtension name
    rw [h] at hends
    exact hends
  appended := ensureNzbExtension_of_not_ends
  settled := ensureNzbExtension_of_ends (endsInNzb_ensureNzbExtension name)
  cut_iff := isSome_dropBytes_iff name _
  cut tail htail := by
    obtain ⟨front, hname, hfront⟩ := dropBytes_eq_some_iff.mp htail
    refine ⟨String.ofList front, ?_, ?_⟩
    · rw [← String.ofList_append, ← hname, String.ofList_toList]
    · rw [← hfront, ← utf8Length_toList, String.toList_ofList]

end FeedDesk.Text
