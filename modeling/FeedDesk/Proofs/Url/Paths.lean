import FeedDesk.Url.Relative
import Mathlib.Data.List.Basic
import Mathlib.Data.List.Flatten
import Mathlib.Data.List.TakeWhile

/-!
# Paths of web addresses

A path that was read is a list of segments that are read as they are: nothing in them is encoded
again, and none of them is a dot. So the text of a path determines its segments, a slash can be put
behind a path without changing what stands before it, and a name that follows a directory becomes
its last segment. Every address that is read has such a path.
-/
namespace FeedDesk.Url

/-- A character that stands for itself in a path. -/
def IsPlain (c : Char) : Prop := pathSet c = false ∧ c ≠ '/' ∧ c ≠ '\\'

def isPlain (c : Char) : Bool := !pathSet c && c != '/' && c != '\\'

theorem isPlain_iff {c : Char} : isPlain c = true ↔ IsPlain c := by
  simp [isPlain, IsPlain, and_assoc]

structure IsSegment (s : List Char) : Prop where
  plain : ∀ c ∈ s, IsPlain c
  not_dot : isSingleDot s = false
  not_dots : isDoubleDot s = false

structure IsPath (path : List String) : Prop where
  ne_nil : path ≠ []
  segment : ∀ s ∈ path, IsSegment s.toList

theorem IsPlain.blank_lt {c : Char} (h : IsPlain c) : ' ' < c := by
  have hclear : ¬ c < ' ' ∧ c ≠ ' ' := by
    have hset := h.1
    simp only [pathSet, fragmentSet, controlSet, Bool.or_eq_false_iff] at hset
    simp_all
  refine Char.not_le.mp fun hle => hclear.2 (Char.le_antisymm hle (Char.not_lt.mp hclear.1))

/-- What is above the blank counts in an address. -/
theorem filter_significant {cs : List Char} (h : ∀ c ∈ cs, ' ' < c) :
    cs.filter (fun c => c != '\t' && c != '\n' && c != '\r') = cs := by
  rw [List.filter_eq_self]
  intro c hc
  have hne (d : Char) (hd : d ≤ ' ') : (c != d) = true :=
    bne_iff_ne.mpr fun heq => Char.not_le.mpr (h c hc) (heq ▸ hd)
  rw [hne '\t' (by decide), hne '\n' (by decide), hne '\r' (by decide)]
  rfl

theorem significant_of_blank_lt {cs : List Char} (h : ∀ c ∈ cs, ' ' < c) :
    significant cs = cs := by
  have hkept {l : List Char} (hl : ∀ c ∈ l, ' ' < c) :
      l.dropWhile (fun c => decide (c ≤ ' ')) = l := by
    rw [List.dropWhile_eq_self_iff]
    intro hlength
    simpa using hl _ (List.getElem_mem hlength)
  have hreversed : ∀ c ∈ cs.reverse, ' ' < c := fun c hc => h c (List.mem_reverse.mp hc)
  rw [significant, hkept h, hkept hreversed, List.reverse_reverse, filter_significant h]

/-! ## Splitting -/

theorem splitAt_eq_splitOn (separator : Char) (cs : List Char) :
    Host.splitAt separator cs = cs.splitOn separator := by
  induction cs with
  | nil => rfl
  | cons c rest ih =>
    rw [Host.splitAt, List.splitOn_cons_eq_if_modifyHead, ih]
    by_cases hc : c = separator
    · simp [hc]
    · obtain ⟨part, parts, hparts⟩ :=
        List.exists_cons_of_ne_nil (List.splitOn_ne_nil separator rest)
      simp [hc, hparts]

/-- A part between separators has no separator. -/
theorem mem_of_mem_splitAt {separator : Char} {cs part : List Char}
    (h : part ∈ Host.splitAt separator cs) : ∀ c ∈ part, c ∈ cs ∧ c ≠ separator := by
  induction cs generalizing part with
  | nil =>
    obtain rfl := List.mem_singleton.mp h
    simp
  | cons c rest ih =>
    obtain ⟨first, parts, hparts⟩ : ∃ first parts, Host.splitAt separator rest = first :: parts :=
      List.exists_cons_of_ne_nil (by simp [splitAt_eq_splitOn])
    have hkept : ∀ part ∈ first :: parts, ∀ d ∈ part, d ∈ c :: rest ∧ d ≠ separator := by
      intro part hpart d hd
      obtain ⟨hrest, hne⟩ := ih (hparts ▸ hpart) d hd
      exact ⟨List.mem_cons_of_mem c hrest, hne⟩
    simp only [Host.splitAt, hparts] at h
    split at h
    · rcases List.mem_cons.mp h with rfl | h
      · simp
      · exact hkept part h
    · next hc =>
      rcases List.mem_cons.mp h with rfl | h
      · exact List.forall_mem_cons.mpr
          ⟨⟨List.mem_cons_self, hc⟩, hkept first List.mem_cons_self⟩
      · exact hkept part (List.mem_cons_of_mem first h)

theorem not_slash_of_mem_splitSlashes {cs part : List Char} (h : part ∈ splitSlashes cs) :
    ∀ c ∈ part, c ≠ '/' ∧ c ≠ '\\' := by
  intro c hc
  obtain ⟨hmem, hslash⟩ := mem_of_mem_splitAt h c hc
  refine ⟨hslash, ?_⟩
  rintro rfl
  obtain ⟨d, -, hd⟩ := List.mem_map.mp hmem
  split at hd
  · cases hd
  · simp_all

theorem splitSlashes_slashed {first : List Char} {rest : List (List Char)}
    (h : ∀ s ∈ first :: rest, ∀ c ∈ s, c ≠ '/' ∧ c ≠ '\\') :
    splitSlashes (first ++ rest.flatMap ('/' :: ·)) = first :: rest := by
  have hkept : ∀ c ∈ first ++ rest.flatMap ('/' :: ·), (if c == '\\' then '/' else c) = c := by
    intro c hc
    rw [if_neg]
    rintro hback
    obtain rfl := eq_of_beq hback
    rcases List.mem_append.mp hc with hc | hc
    · exact (h first List.mem_cons_self _ hc).2 rfl
    · obtain ⟨s, hs, hc⟩ := List.mem_flatMap.mp hc
      rcases List.mem_cons.mp hc with hc | hc
      · cases hc
      · exact (h s (List.mem_cons_of_mem first hs) _ hc).2 rfl
  rw [splitSlashes, List.map_congr_left hkept, List.map_id', splitAt_eq_splitOn]
  clear hkept
  induction rest generalizing first with
  | nil =>
    rw [List.flatMap_nil, List.append_nil]
    exact List.splitOn_eq_singleton fun hc => (h first List.mem_cons_self _ hc).1 rfl
  | cons second rest ih =>
    obtain ⟨hfirst, hrest⟩ := List.forall_mem_cons.mp h
    rw [List.flatMap_cons, List.cons_append,
      List.splitOn_append_cons_self_of_not_mem (fun hc => (hfirst _ hc).1 rfl), ih hrest]

/-! ## Encoding -/

theorem isPlain_percentByte (b : UInt8) : ∀ c ∈ percentByte b, IsPlain c := by
  have hall : ∀ n < 256, ('%' :: (Number.hexDigits 2 n).map Char.toUpper).all isPlain = true := by
    decide +kernel
  intro c hc
  exact isPlain_iff.mp (List.all_eq_true.mp (hall b.toNat b.toNat_lt) c hc)

theorem isPlain_percentEncode {cs : List Char} (h : ∀ c ∈ cs, c ≠ '/' ∧ c ≠ '\\') :
    ∀ c ∈ percentEncode pathSet cs, IsPlain c := by
  intro c hc
  obtain ⟨d, hd, hc⟩ := List.mem_flatMap.mp hc
  split at hc
  · obtain ⟨b, -, hc⟩ := List.mem_flatMap.mp hc
    exact isPlain_percentByte b c hc
  · next hset =>
    obtain rfl := List.mem_singleton.mp hc
    exact ⟨by simpa using hset, h c hd⟩

theorem percentEncode_of_plain {cs : List Char} (h : ∀ c ∈ cs, IsPlain c) :
    percentEncode pathSet cs = cs := by
  have hkept : ∀ c ∈ cs, (if pathSet c then (String.utf8EncodeChar c).flatMap percentByte
      else [c]) = [c] := fun c hc => if_neg (by simp [(h c hc).1])
  rw [percentEncode, List.flatMap_congr hkept, List.flatMap_singleton']

/-! ## Dots -/

theorem mem_of_mem_leave {s : List Char} {done : List (List Char)} (h : s ∈ leave done) :
    s ∈ done := by
  unfold leave at h
  split at h
  · exact h
  · split at h
    · exact h
    · exact List.mem_cons_of_mem _ h

theorem isSegment_of_mem_resolveDots {done segments : List (List Char)}
    (hdone : ∀ s ∈ done, IsSegment s) (hplain : ∀ s ∈ segments, ∀ c ∈ s, IsPlain c) :
    ∀ s ∈ resolveDots done segments, IsSegment s := by
  have hended {done : List (List Char)} (h : ∀ s ∈ done, IsSegment s) :
      ∀ s ∈ ([] :: done).reverse, IsSegment s := by
    have hempty : IsSegment [] := ⟨by simp, rfl, rfl⟩
    intro s hs
    exact List.forall_mem_cons.mpr ⟨hempty, h⟩ s (List.mem_reverse.mp hs)
  induction segments generalizing done with
  | nil => simpa [resolveDots] using hdone
  | cons first rest ih =>
    obtain ⟨hfirst, hrest⟩ := List.forall_mem_cons.mp hplain
    unfold resolveDots
    split
    · have hleft : ∀ s ∈ leave done, IsSegment s := fun s hs => hdone s (mem_of_mem_leave hs)
      split
      · exact hended hleft
      · exact ih hleft hrest
    · next hdots =>
      split
      · split
        · exact hended hdone
        · exact ih hdone hrest
      · next hdot =>
        have hsegment : IsSegment first := ⟨hfirst, by simpa using hdot, by simpa using hdots⟩
        exact ih (List.forall_mem_cons.mpr ⟨hsegment, hdone⟩) hrest

theorem resolveDots_ne_nil {done segments : List (List Char)} (h : done ≠ [] ∨ segments ≠ []) :
    resolveDots done segments ≠ [] := by
  induction segments generalizing done with
  | nil => simpa [resolveDots] using h
  | cons first rest ih =>
    unfold resolveDots
    split
    · split
      · simp
      · next hrest => exact ih (.inr (by simpa using hrest))
    · split
      · split
        · simp
        · next hrest => exact ih (.inr (by simpa using hrest))
      · exact ih (.inl (List.cons_ne_nil first done))

theorem resolveDots_of_segments {done segments : List (List Char)}
    (h : ∀ s ∈ segments, IsSegment s) :
    resolveDots done segments = done.reverse ++ segments := by
  induction segments generalizing done with
  | nil => simp [resolveDots]
  | cons first rest ih =>
    obtain ⟨hfirst, hrest⟩ := List.forall_mem_cons.mp h
    rw [resolveDots, hfirst.not_dots, hfirst.not_dot]
    simp [ih hrest]

/-! ## Paths -/

theorem isPath_readPath (cs : List Char) : IsPath (readPath cs) := by
  have hplain : ∀ s ∈ (splitSlashes cs).map (percentEncode pathSet), ∀ c ∈ s, IsPlain c := by
    intro s hs
    obtain ⟨part, hpart, rfl⟩ := List.mem_map.mp hs
    exact isPlain_percentEncode (not_slash_of_mem_splitSlashes hpart)
  constructor
  · have hparts : (splitSlashes cs).map (percentEncode pathSet) ≠ [] := by
      simp [splitSlashes, splitAt_eq_splitOn]
    simpa [readPath] using resolveDots_ne_nil (.inr hparts)
  · intro s hs
    obtain ⟨segment, hsegment, rfl⟩ := List.mem_map.mp hs
    rw [String.toList_ofList]
    exact isSegment_of_mem_resolveDots (by simp) hplain segment hsegment

def slashed (path : List String) : String := String.join (path.map fun s => "/" ++ s)

theorem pathText_eq (u : Url) : u.pathText = slashed u.path := rfl

theorem slashed_append (a b : List String) : slashed (a ++ b) = slashed a ++ slashed b := by
  rw [slashed, List.map_append, String.join_append]
  rfl

theorem slashed_singleton (name : String) : slashed [name] = "/" ++ name := by
  simp [slashed]

theorem toList_slashed (path : List String) :
    (slashed path).toList = (path.map String.toList).flatMap ('/' :: ·) := by
  induction path with
  | nil => rfl
  | cons s path ih =>
    have hslash : "/".toList = ['/'] := rfl
    rw [← List.singleton_append, slashed_append, slashed_singleton, String.toList_append,
      String.toList_append, ih, hslash]
    simp

theorem readPath_slashed {path : List String} (h : IsPath path) :
    readPath ((slashed path).toList.drop 1) = path := by
  obtain ⟨first, rest, rfl⟩ := List.exists_cons_of_ne_nil h.ne_nil
  have hsegments : ∀ s ∈ (first :: rest).map String.toList, IsSegment s := by
    simpa using h.segment
  have hencoded : ((first :: rest).map String.toList).map (percentEncode pathSet) =
      (first :: rest).map String.toList :=
    (List.map_congr_left fun s hs => percentEncode_of_plain (hsegments s hs).plain).trans
      (List.map_id' _)
  have hsplit : splitSlashes (first.toList ++ (rest.map String.toList).flatMap ('/' :: ·)) =
      (first :: rest).map String.toList :=
    splitSlashes_slashed fun s hs c hc => ((hsegments s hs).plain c hc).2
  rw [toList_slashed, List.map_cons, List.flatMap_cons, List.cons_append, List.drop_one,
    List.tail_cons, readPath, hsplit, hencoded, resolveDots_of_segments hsegments]
  simp

theorem slashed_inj {p q : List String} (hp : IsPath p) (hq : IsPath q) :
    slashed p = slashed q ↔ p = q := by
  refine ⟨fun h => ?_, congrArg slashed⟩
  rw [← readPath_slashed hp, h, readPath_slashed hq]

/-! ## Directories -/

theorem IsPath.append {path : List String} (h : ∀ s ∈ path, IsSegment s.toList) {name : String}
    (hname : IsSegment name.toList) : IsPath (path ++ [name]) :=
  ⟨by simp, List.forall_mem_append.mpr ⟨h, List.forall_mem_singleton.mpr hname⟩⟩

theorem isSegment_empty : IsSegment "".toList := ⟨by simp, rfl, rfl⟩

theorem slashed_eq_cons {path : List String} (h : path ≠ []) :
    (slashed path).toList = '/' :: (slashed path).toList.drop 1 := by
  obtain ⟨first, rest, rfl⟩ := List.exists_cons_of_ne_nil h
  rw [toList_slashed]
  rfl

theorem blank_lt_of_mem_slashed {path : List String} (h : ∀ s ∈ path, IsSegment s.toList) :
    ∀ c ∈ (slashed path).toList, ' ' < c := by
  intro c hc
  rw [toList_slashed, List.mem_flatMap] at hc
  obtain ⟨s, hs, hc⟩ := hc
  obtain ⟨segment, hsegment, rfl⟩ := List.mem_map.mp hs
  rcases List.mem_cons.mp hc with rfl | hc
  · decide
  · exact ((h segment hsegment).plain c hc).blank_lt

theorem withPath_slashed (u : Url) {path : List String} (h : IsPath path) :
    u.withPath (slashed path) = { u with path } := by
  simp only [withPath, filter_significant (blank_lt_of_mem_slashed h.segment)]
  rw [slashed_eq_cons h.ne_nil]
  simp only [readPath_slashed h]

/-- The path of an address without the empty segment behind a final slash. -/
def directory (u : Url) : List String :=
  if u.path.getLast? = some "" then u.path.dropLast else u.path

/-- A path ends in a slash exactly if its last segment is empty. -/
theorem getLast?_slashed {path : List String} (h : IsPath path) :
    (slashed path).toList.getLast? = some '/' ↔ path.getLast? = some "" := by
  obtain ⟨front, last, rfl⟩ : ∃ front last, path = front ++ [last] :=
    ⟨_, _, (List.dropLast_append_getLast h.ne_nil).symm⟩
  have hlast : ∀ c ∈ last.toList, c ≠ '/' := fun c hc =>
    ((h.segment last (by simp)).plain c hc).2.1
  rw [slashed_append, slashed_singleton, String.toList_append, String.toList_append,
    List.getLast?_append, List.getLast?_append, List.getLast?_concat, Option.some_inj]
  cases hend : last.toList.getLast? with
  | none =>
    have hempty : last = "" := String.toList_eq_nil_iff.mp (List.getLast?_eq_none_iff.mp hend)
    exact iff_of_true rfl hempty
  | some c =>
    have hnonempty : last ≠ "" := by
      rintro rfl
      cases hend
    refine iff_of_false (fun hslash => ?_) hnonempty
    exact hlast c (List.mem_of_getLast? hend) (Option.some.inj hslash)

def basePath (u : Url) : String :=
  if u.pathText.toList.getLast? = some '/' then u.pathText else u.pathText ++ "/"

theorem basePath_eq {u : Url} (h : IsPath u.path) : u.basePath = slashed (u.directory ++ [""]) := by
  rw [basePath, pathText_eq, directory]
  by_cases hend : u.path.getLast? = some ""
  · rw [if_pos ((getLast?_slashed h).mpr hend), if_pos hend, List.dropLast_append_getLast? "" hend]
  · rw [if_neg (mt (getLast?_slashed h).mp hend), if_neg hend, slashed_append]
    rfl

theorem isPath_directory {u : Url} (h : IsPath u.path) {name : String}
    (hname : IsSegment name.toList) : IsPath (u.directory ++ [name]) := by
  refine .append (fun s hs => h.segment s ?_) hname
  unfold directory at hs
  split at hs
  · exact List.dropLast_subset _ hs
  · exact hs

theorem asDirectory_eq {u : Url} (h : IsPath u.path) :
    u.asDirectory = { u with path := u.directory ++ [""] } := by
  have hset : u.asDirectory = u.withPath u.basePath := by
    unfold asDirectory basePath
    split
    · exact (u.withPath_slashed h).symm
    · rfl
  rw [hset, basePath_eq h, u.withPath_slashed (isPath_directory h isSegment_empty)]

theorem join_name (u : Url) {name : String} (h : IsSegment name.toList) :
    u.join name =
      { u with path := u.path.dropLast ++ [name], query := none, fragment := none } := by
  have hsplit : splitSlashes name.toList = [name.toList] := by
    have hslashed : splitSlashes (name.toList ++ [].flatMap ('/' :: ·)) = [name.toList] :=
      splitSlashes_slashed (List.forall_mem_singleton.mpr fun c hc => (h.plain c hc).2)
    rwa [List.flatMap_nil, List.append_nil] at hslashed
  simp only [join]
  rw [significant_of_blank_lt fun c hc => (h.plain c hc).blank_lt, hsplit, List.map_singleton,
    percentEncode_of_plain h.plain, resolveDots_of_segments (List.forall_mem_singleton.mpr h)]
  simp

/-! ## Addresses -/

theorem ok_of_bind {ε α β : Type} {x : Except ε α} {f : α → Except ε β} {b : β}
    (h : (x >>= f) = .ok b) : ∃ a, x = .ok a ∧ f a = .ok b := by
  cases x with
  | error e => cases h
  | ok a => exact ⟨a, rfl, h⟩

/-- What is read begins with a scheme, and is an address of a scheme other than those of the web or
has the authority and the target behind its slashes. -/
theorem read_cases [DomainMapping] {text : String} {reading : Reading}
    (h : read text = .ok reading) :
    ∃ scheme rest, readScheme (significant text.toList) = some (scheme, rest) ∧
      (reading = .other scheme ∨
        ∃ usual a behind, usualPort? scheme = some usual ∧
          (scheme = "http" ∨ scheme = "https") ∧
          readAuthority true (some usual) (rest.dropWhile fun c => c == '/' || c == '\\') =
            .ok (a, behind) ∧
          reading = .web ⟨scheme, a.username, a.password, a.host, a.port,
            (readTarget behind).1, (readTarget behind).2.1, (readTarget behind).2.2⟩) := by
  unfold read at h
  cases hscheme : readScheme (significant text.toList) with
  | none =>
    rw [hscheme] at h
    cases h
  | some found =>
    obtain ⟨scheme, rest⟩ := found
    rw [hscheme] at h
    obtain ⟨_, hfound, h⟩ := ok_of_bind h
    obtain rfl := Except.ok.inj hfound
    refine ⟨scheme, rest, rfl, ?_⟩
    dsimp only at h
    cases husual : usualPort? scheme with
    | some usual =>
      rw [husual] at h
      obtain ⟨⟨a, behind⟩, hauthority, h⟩ := ok_of_bind h
      dsimp only at h
      split at h
      · next hweb =>
        refine .inr ⟨usual, a, behind, rfl, by simpa using hweb, hauthority, ?_⟩
        exact (Except.ok.inj h).symm
      · exact .inl (Except.ok.inj h).symm
    | none =>
      -- An address of another scheme is checked only.
      rw [husual] at h
      dsimp only at h
      split at h
      · obtain ⟨_, -, h⟩ := ok_of_bind h
        exact .inl (Except.ok.inj h).symm
      · split at h
        · obtain ⟨_, -, h⟩ := ok_of_bind h
          exact .inl (Except.ok.inj h).symm
        · exact .inl (Except.ok.inj h).symm

theorem isPath_of_read [DomainMapping] {text : String} {u : Url} (h : read text = .ok (.web u)) :
    IsPath u.path := by
  obtain ⟨_, _, -, hother | ⟨_, _, _, -, -, -, hweb⟩⟩ := read_cases h
  · cases hother
  · obtain rfl := Reading.web.inj hweb
    exact isPath_readPath _

/-- What an address of another scheme is refused with is the scheme in front of it. -/
theorem readScheme_of_read [DomainMapping] {text scheme : String}
    (h : read text = .ok (.other scheme)) :
    ∃ rest, readScheme (significant text.toList) = some (scheme, rest) := by
  obtain ⟨_, rest, hscheme, hother | ⟨_, _, _, -, -, -, hweb⟩⟩ := read_cases h
  · obtain rfl := Reading.other.inj hother
    exact ⟨rest, hscheme⟩
  · cases hweb

end FeedDesk.Url
