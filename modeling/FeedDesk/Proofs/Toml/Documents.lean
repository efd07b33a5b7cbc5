import FeedDesk.Toml.Document
import Mathlib.Data.List.TakeWhile

/-!
# What a document holds

The integers at the top of a document have 64 bits, however the document is put together. A
document of nothing but a comment holds nothing.
-/
namespace FeedDesk.Toml

/-- A value that is no integer or one of 64 bits. -/
def Value.InRange (v : Value) : Prop :=
  ∀ i, v = .integer i → -9223372036854775808 ≤ i ∧ i < 9223372036854775808

/-- A table with no integers but those of 64 bits. Tables inside of it do not count. -/
def Table.InRange (t : Table) : Prop := ∀ entry ∈ t, entry.2.InRange

/-! ## Values -/

theorem inRange_of_integer? {n : Int} {v : Value} (h : integer? n = some v) : v.InRange := by
  unfold integer? at h
  split at h
  · next hrange =>
    obtain rfl := Option.some.inj h
    rintro i ⟨⟩
    exact hrange
  · cases h

theorem inRange_of_real? {x : Number.Binary64} {v : Value} (h : real? x = some v) :
    v.InRange := by
  unfold real? at h
  split at h
  · cases h
  · obtain rfl := Option.some.inj h
    rintro i ⟨⟩

theorem inRange_of_readInBase {base : Nat} {cs rest : List Char} {v : Value}
    (h : readInBase base cs = some (v, rest)) : v.InRange := by
  simp only [readInBase, Option.bind_eq_bind, Option.bind_eq_some_iff] at h
  obtain ⟨digits, -, value, hvalue, h⟩ := h
  obtain ⟨rfl, -⟩ := Prod.mk.inj (Option.some.inj h)
  exact inRange_of_integer? hvalue

theorem inRange_of_readDecimal {negative : Bool} {cs rest : List Char} {v : Value}
    (h : readDecimal negative cs = some (v, rest)) : v.InRange := by
  simp only [readDecimal, Option.bind_eq_bind, Option.bind_eq_some_iff] at h
  obtain ⟨whole, -, fraction, -, power, -, h⟩ := h
  split at h
  · obtain ⟨value, hvalue, h⟩ := Option.bind_eq_some_iff.mp h
    obtain ⟨rfl, -⟩ := Prod.mk.inj (Option.some.inj h)
    exact inRange_of_integer? hvalue
  · obtain ⟨value, hvalue, h⟩ := Option.bind_eq_some_iff.mp h
    obtain ⟨rfl, -⟩ := Prod.mk.inj (Option.some.inj h)
    exact inRange_of_real? hvalue

theorem inRange_of_readSigned {negative : Bool} {cs rest : List Char} {v : Value}
    (h : readSigned negative cs = some (v, rest)) : v.InRange := by
  unfold readSigned at h
  split at h
  · obtain ⟨rfl, -⟩ := Prod.mk.inj (Option.some.inj h)
    rintro i ⟨⟩
  · obtain ⟨rfl, -⟩ := Prod.mk.inj (Option.some.inj h)
    rintro i ⟨⟩
  · exact inRange_of_readDecimal h

theorem inRange_of_readNumber {cs rest : List Char} {v : Value}
    (h : readNumber cs = some (v, rest)) : v.InRange := by
  unfold readNumber at h
  split at h
  · obtain ⟨moment, -, hmoment⟩ := Option.map_eq_some_iff.mp h
    obtain ⟨rfl, -⟩ := Prod.mk.inj hmoment
    rintro i ⟨⟩
  · obtain ⟨moment, -, hmoment⟩ := Option.map_eq_some_iff.mp h
    obtain ⟨rfl, -⟩ := Prod.mk.inj hmoment
    rintro i ⟨⟩
  · split at h
    · exact inRange_of_readInBase h
    · exact inRange_of_readInBase h
    · exact inRange_of_readInBase h
    · exact inRange_of_readSigned h
    · exact inRange_of_readSigned h
    · exact inRange_of_readSigned h

theorem inRange_of_readValue {room fuel : Nat} {cs rest : List Char} {v : Value}
    (h : readValue room fuel cs = some (v, rest)) : v.InRange := by
  cases fuel with
  | zero => cases h
  | succ fuel =>
    unfold readValue at h
    split at h
    · cases h
      rintro i ⟨⟩
    · cases h
      rintro i ⟨⟩
    · obtain ⟨text, -, htext⟩ := Option.map_eq_some_iff.mp h
      cases htext
      rintro i ⟨⟩
    · obtain ⟨text, -, htext⟩ := Option.map_eq_some_iff.mp h
      cases htext
      rintro i ⟨⟩
    · split at h
      · cases h
        rintro i ⟨⟩
      · obtain ⟨elements, -, helements⟩ := Option.map_eq_some_iff.mp h
        cases helements
        rintro i ⟨⟩
    · split at h
      · cases h
        rintro i ⟨⟩
      · obtain ⟨members, -, hmembers⟩ := Option.map_eq_some_iff.mp h
        cases hmembers
        rintro i ⟨⟩
    · exact inRange_of_readNumber h

/-! ## Tables -/

namespace Table

variable {t t' : Table}

theorem InRange.lookup (h : t.InRange) {key : String} {v : Value} (hv : t.lookup key = some v) :
    v.InRange := by
  obtain ⟨front, rest, rfl, -⟩ := List.lookup_eq_some_iff.mp hv
  exact h (key, v) (by simp)

theorem InRange.append (h : t.InRange) {key : String} {v : Value} (hv : v.InRange) :
    InRange (t ++ [(key, v)]) :=
  List.forall_mem_append.mpr ⟨h, List.forall_mem_singleton.mpr hv⟩

theorem InRange.replace (h : t.InRange) {key : String} {v : Value} (hv : v.InRange) :
    InRange (t.replace key v) := by
  refine List.forall_mem_map.mpr fun entry hentry => ?_
  split
  · exact hv
  · exact h entry hentry

/-- Changes inside of tables do not count: only the change at the end of the path can matter. -/
theorem InRange.changeAt {origin reached : Origin} {change : Origin → Table → Option Table}
    {path : List String} (h : t.InRange)
    (hchange : path = [] → change reached t = some t' → t'.InRange)
    (ht : t.changeAt origin change path reached = some t') : t'.InRange := by
  cases path with
  | nil => exact hchange rfl ht
  | cons key path =>
    have htable (origin : Origin) (inner : Table) : (Value.table origin inner).InRange := by
      rintro i ⟨⟩
    have htables (elements : List Table) : (Value.tables elements).InRange := by
      rintro i ⟨⟩
    unfold Table.changeAt at ht
    split at ht
    · obtain ⟨inner, -, rfl⟩ := Option.map_eq_some_iff.mp ht
      exact h.append (htable _ inner)
    · split at ht
      · cases ht
      · obtain ⟨inner, -, rfl⟩ := Option.map_eq_some_iff.mp ht
        exact h.replace (htable _ inner)
    · obtain ⟨inner, -, rfl⟩ := Option.map_eq_some_iff.mp ht
      exact h.replace (htables _)
    · cases ht

theorem InRange.addNew (h : t.InRange) {key : String} {v : Value} (hv : v.InRange)
    (ht : t.addNew key v = some t') : t'.InRange := by
  unfold Table.addNew at ht
  split at ht
  · cases ht
  · cases ht
    exact h.append hv

theorem InRange.addPair {path : List String} {key : String} {v : Value} {reached : Origin}
    (h : t.InRange) (hv : v.InRange) (ht : Table.addPair path key v reached t = some t') :
    t'.InRange := by
  refine h.changeAt (fun _ hnew => ?_) ht
  split at hnew
  · cases hnew
  · exact h.addNew hv hnew

theorem InRange.addHeader {path : List String} {key : String} (h : t.InRange)
    (ht : t.addHeader path key = some t') : t'.InRange := by
  refine h.changeAt (fun _ hnew => ?_) ht
  split at hnew
  · cases hnew
    refine h.append ?_
    rintro i ⟨⟩
  · cases hnew
    refine h.replace ?_
    rintro i ⟨⟩
  · cases hnew

theorem InRange.addElement {path : List String} {key : String} (h : t.InRange)
    (ht : t.addElement path key = some t') : t'.InRange := by
  refine h.changeAt (fun _ hnew => ?_) ht
  split at hnew
  · cases hnew
    refine h.append ?_
    rintro i ⟨⟩
  · cases hnew
    refine h.replace ?_
    rintro i ⟨⟩
  · cases hnew

end Table

/-! ## Documents -/

section
variable {d d' : Draft} {cs rest : List Char}

theorem inRange_of_readHeader (h : d.root.InRange) (hd : readHeader d cs = some (d', rest)) :
    d'.root.InRange := by
  unfold readHeader at hd
  split at hd
  · split at hd
    · simp only [Option.bind_eq_bind, Option.bind_eq_some_iff, Draft.addElement] at hd
      obtain ⟨next, hnext, _, _, hd⟩ := hd
      obtain ⟨root, hroot, rfl⟩ := Option.map_eq_some_iff.mp hnext
      cases hd
      exact h.addElement hroot
    · cases hd
  · split at hd
    · simp only [Option.bind_eq_bind, Option.bind_eq_some_iff, Draft.addHeader] at hd
      obtain ⟨next, hnext, _, _, hd⟩ := hd
      obtain ⟨root, hroot, rfl⟩ := Option.map_eq_some_iff.mp hnext
      cases hd
      exact h.addHeader hroot
    · cases hd

theorem inRange_of_readPair {fuel : Nat} (h : d.root.InRange)
    (hd : readPair fuel d cs = some (d', rest)) : d'.root.InRange := by
  unfold readPair at hd
  split at hd
  · simp only [Option.bind_eq_bind, Option.bind_eq_some_iff, Draft.addPair] at hd
    obtain ⟨read, hread, next, hnext, _, _, hd⟩ := hd
    obtain ⟨root, hroot, rfl⟩ := Option.map_eq_some_iff.mp hnext
    cases hd
    exact h.changeAt (fun _ hpair => h.addPair (inRange_of_readValue hread) hpair) hroot
  · cases hd

/-- The lines of a document add no integers but those of 64 bits. -/
theorem inRange_of_readLines {fuel : Nat} {t : Table} (h : d.root.InRange)
    (ht : readLines d fuel cs = some t) : t.InRange := by
  induction fuel generalizing d cs with
  | zero => cases ht
  | succ fuel ih =>
    unfold readLines at ht
    split at ht
    · cases ht
      exact h
    · obtain ⟨rest, -, ht⟩ := Option.bind_eq_some_iff.mp ht
      exact ih h ht
    · obtain ⟨⟨next, rest⟩, hnext, ht⟩ := Option.bind_eq_some_iff.mp ht
      exact ih (inRange_of_readHeader h hnext) ht
    · split at ht
      · exact ih h ht
      · obtain ⟨⟨next, rest⟩, hnext, ht⟩ := Option.bind_eq_some_iff.mp ht
        exact ih (inRange_of_readPair h hnext) ht

end

/-- The integers at the top of a document have 64 bits. -/
theorem inRange_of_parse? {text : String} {t : Table} (h : parse? text = some t) : t.InRange := by
  have hempty : Table.InRange ({} : Draft).root := List.forall_mem_nil _
  exact inRange_of_readLines hempty h

/-! ## Documents of one line -/

theorem parse?_comment {comment : List Char} (h : ∀ c ∈ comment, isPlain c = true) :
    parse? (String.ofList ('#' :: comment)) = some [] := by
  have hskipped : comment.dropWhile isPlain = [] := List.dropWhile_eq_nil_iff.mpr h
  have hline : afterLine? ('#' :: comment) = some [] := by
    simp [afterLine?, skipSpace, isSpace, hskipped]
  have hread (fuel : Nat) : readLines {} (fuel + 2) ('#' :: comment) = some [] := by
    have hfirst : skipSpace ('#' :: comment) = '#' :: comment := rfl
    rw [readLines, hfirst]
    simp only [hline, Option.bind_some]
    rfl
  rw [parse?, String.toList_ofList]
  exact hread _

structure IsBareKey (key : List Char) : Prop where
  ne_nil : key ≠ []
  isKeyChar : ∀ c ∈ key, isKeyChar c = true

namespace IsBareKey

variable {key rest : List Char}

/-- A line that begins with a bare key does not begin in another way. -/
theorem append_ne (h : IsBareKey key) {c : Char} (hc : Toml.isKeyChar c = false)
    (tail : List Char) : key ++ rest ≠ c :: tail := by
  obtain ⟨d, key, rfl⟩ := List.exists_cons_of_ne_nil h.ne_nil
  intro heq
  obtain ⟨rfl, -⟩ := List.cons.inj heq
  rw [h.isKeyChar d List.mem_cons_self] at hc
  cases hc

theorem skipSpace_append (h : IsBareKey key) : skipSpace (key ++ rest) = key ++ rest := by
  rw [skipSpace, List.dropWhile_eq_self_iff]
  intro hlength hspace
  obtain ⟨c, tail, heq⟩ := List.exists_cons_of_length_pos hlength
  have hc : Toml.isKeyChar c = false := by
    have hblank : c = ' ' ∨ c = '\t' := by simpa [heq, isSpace] using hspace
    rcases hblank with rfl | rfl <;> decide
  exact h.append_ne hc tail heq

theorem readKey_append (h : IsBareKey key) :
    readKey (key ++ '=' :: rest) = some ([], String.ofList key, '=' :: rest) := by
  have hkey : (key ++ '=' :: rest).takeWhile Toml.isKeyChar = key := by
    rw [List.takeWhile_append_of_pos h.isKeyChar, List.takeWhile_cons_of_neg (by decide),
      List.append_nil]
  have hrest : (key ++ '=' :: rest).dropWhile Toml.isKeyChar = '=' :: rest := by
    rw [List.dropWhile_append_of_pos h.isKeyChar, List.dropWhile_cons_of_neg (by decide)]
  have hpart : readKeyPart (key ++ '=' :: rest) = some (String.ofList key, '=' :: rest) := by
    unfold readKeyPart
    split
    · next heq => exact absurd heq (h.append_ne (by decide) _)
    · next heq => exact absurd heq (h.append_ne (by decide) _)
    · simp [hkey, hrest, h.ne_nil]
  have hequals : skipSpace ('=' :: rest) = '=' :: rest := rfl
  rw [readKey, readKeyParts, h.skipSpace_append, hpart]
  simp only [hequals]
  rfl

/-- A document of one pair gives a key its value. -/
theorem parse?_true (h : IsBareKey key) :
    parse? (String.ofList (key ++ "=true".toList)) = some [(String.ofList key, .boolean true)] := by
  have hequals : "=true".toList = '=' :: "true".toList := rfl
  have hpair (fuel : Nat) : readPair (fuel + 1) {} (key ++ "=true".toList) =
      some (⟨[(String.ofList key, .boolean true)], []⟩, []) := by
    have hvalue : readValue nestingLimit (fuel + 1) (skipSpace "true".toList) =
        some (.boolean true, []) := rfl
    rw [readPair, hequals, h.readKey_append]
    simp only [hvalue, Option.bind_eq_bind, Option.bind_some]
    rfl
  have hread (fuel : Nat) : readLines {} (fuel + 2) (key ++ "=true".toList) =
      some [(String.ofList key, .boolean true)] := by
    have hnewline : afterNewline? (key ++ "=true".toList) = none := by
      unfold afterNewline?
      split
      · next heq => exact absurd heq (h.append_ne (by decide) _)
      · next heq => exact absurd heq (h.append_ne (by decide) _)
      · rfl
    rw [readLines, h.skipSpace_append]
    split
    · next heq => exact absurd heq (List.append_ne_nil_of_left_ne_nil h.ne_nil _)
    · next heq => exact absurd heq (h.append_ne (by decide) _)
    · next heq => exact absurd heq (h.append_ne (by decide) _)
    · rw [hnewline]
      simp only [hpair, Option.bind_some]
      rfl
  rw [parse?, String.toList_ofList]
  split
  · next heq => exact absurd heq (h.append_ne (by decide) _)
  · exact hread _

end IsBareKey

end FeedDesk.Toml
