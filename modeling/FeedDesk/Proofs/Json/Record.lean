import FeedDesk.Json.Record
import Mathlib.Data.List.Nodup

/-!
# What an object gives

The record of an object depends only on the values that the object gives under each declared
name. Neither the order of the members nor the other members matter, and a record exists only if
no declared name is given twice.
-/
namespace FeedDesk.Record

def given (ms : List (Option String × Json)) (name : String) : List Json :=
  (ms.filter (·.1 == some name)).map Prod.snd

variable {declared : List String} {ms : List (Option String × Json)} {name : String}

theorem given_cons_self (v : Json) (ms : List (Option String × Json)) (name : String) :
    given ((some name, v) :: ms) name = v :: given ms name := by
  simp [given]

theorem given_cons_of_ne {m : Option String × Json} (h : m.1 ≠ some name) :
    given (m :: ms) name = given ms name := by
  simp [given, h]

theorem given_eq_nil (h : some name ∉ ms.map Prod.fst) : given ms name = [] := by
  rw [given, List.map_eq_nil_iff, List.filter_eq_nil_iff]
  intro m hm heq
  exact h (List.mem_map.mpr ⟨m, hm, beq_iff_eq.mp heq⟩)

theorem length_given (ms : List (Option String × Json)) (name : String) :
    (given ms name).length = (ms.map Prod.fst).count (some name) := by
  rw [given, List.length_map, List.count, List.countP_map, List.countP_eq_length_filter]
  rfl

/-- The members that are kept give under a name what the object gives, if the name is declared,
and nothing otherwise. -/
theorem values_of_known {kept : List (String × Json)} (h : known declared ms = some kept)
    (name : String) :
    (kept.filter (·.1 == name)).map Prod.snd = if name ∈ declared then given ms name else [] := by
  induction ms generalizing kept with
  | nil =>
    obtain rfl := Option.some.inj h
    exact (ite_self []).symm
  | cons m ms ih =>
    match m with
    | (none, _) => cases h
    | (some other, v) =>
      obtain ⟨rest, hrest, rfl⟩ := Option.map_eq_some_iff.mp h
      have ih := ih hrest
      by_cases hother : other = name
      · subst hother
        rw [given_cons_self]
        by_cases hdeclared : other ∈ declared
        · simpa [hdeclared] using ih
        · simpa [hdeclared] using ih
      · rw [given_cons_of_ne (by simpa using hother), ← ih]
        split
        · simp [hother]
        · rfl

theorem known_isSome (declared : List String) (h : ∀ m ∈ ms, m.1.isSome) :
    ∃ kept, known declared ms = some kept := by
  induction ms with
  | nil => exact ⟨[], rfl⟩
  | cons m ms ih =>
    obtain ⟨hm, hms⟩ := List.forall_mem_cons.mp h
    obtain ⟨kept, hkept⟩ := ih hms
    match m, hm with
    | (some name, v), _ => exact ⟨_, by rw [known, hkept]; rfl⟩

theorem lookup_eq_head? (kept : List (String × Json)) (name : String) :
    kept.lookup name = ((kept.filter (·.1 == name)).map Prod.snd).head? := by
  induction kept with
  | nil => rfl
  | cons m kept ih =>
    obtain ⟨other, v⟩ := m
    by_cases h : other = name
    · simp [h]
    · have hne : (name == other) = false := beq_false_of_ne (Ne.symm h)
      simp [List.lookup_cons, h, hne, ih]

theorem nodup_of_known {kept : List (String × Json)} (h : known declared ms = some kept) :
    (kept.map Prod.fst).Nodup ↔ ∀ name ∈ declared, (given ms name).length ≤ 1 := by
  have hcount (name : String) : (kept.map Prod.fst).count name =
      if name ∈ declared then (given ms name).length else 0 := by
    rw [List.count, List.countP_map, List.countP_eq_length_filter]
    have hlength := congrArg List.length (values_of_known h name)
    rw [List.length_map] at hlength
    rw [← List.length_nil, ← apply_ite List.length]
    exact hlength
  rw [List.nodup_iff_count_le_one]
  refine forall_congr' fun name => ?_
  rw [hcount]
  split
  · next hname => exact ⟨fun h _ => h, fun h => h hname⟩
  · next hname => exact ⟨fun _ h => absurd h hname, fun _ => Nat.zero_le 1⟩

theorem ofJson?_twice (hname : name ∈ declared) (h : 1 < (given ms name).length) :
    ofJson? declared (.object ms) = none := by
  rw [ofJson?, Option.bind_eq_none_iff]
  intro kept hkept
  refine if_neg fun hnodup => ?_
  have hle := (nodup_of_known hkept).mp hnodup name hname
  omega

theorem ofJson?_once (hnames : ∀ m ∈ ms, m.1.isSome)
    (h : ∀ name ∈ declared, (given ms name).length ≤ 1) :
    ∃ r, ofJson? declared (.object ms) = some r ∧
      ∀ name ∈ declared, r.get? name = (given ms name).head? := by
  obtain ⟨kept, hkept⟩ := known_isSome declared hnames
  refine ⟨⟨kept⟩, ?_, fun name hname => ?_⟩
  · rw [ofJson?, hkept, Option.bind_some, if_pos ((nodup_of_known hkept).mpr h)]
  · rw [get?, lookup_eq_head?, values_of_known hkept, if_pos hname]

theorem mem_of_get? {r : Record} {v : Json} (h : ofJson? declared (.object ms) = some r)
    (hget : r.get? name = some v) : (some name, v) ∈ ms := by
  obtain ⟨kept, hkept, hr⟩ := Option.bind_eq_some_iff.mp h
  obtain ⟨-, hr⟩ := Option.ite_none_right_eq_some.mp hr
  obtain rfl := Option.some.inj hr
  rw [get?, lookup_eq_head?, values_of_known hkept] at hget
  have hmem : v ∈ given ms name := by
    split at hget
    · exact List.mem_of_mem_head? hget
    · cases hget
  obtain ⟨m, hm, rfl⟩ := List.mem_map.mp hmem
  obtain ⟨hm, heq⟩ := List.mem_filter.mp hm
  rwa [← beq_iff_eq.mp heq]

/-- An object with some of the declared members, in declaration order, is read as these. -/
theorem ofJson?_ofMembers {members : List (String × Json)}
    (hnames : (members.map Prod.fst).Sublist declared) (hdeclared : declared.Nodup) :
    ofJson? declared (.ofMembers members) = some ⟨members⟩ := by
  have hknown (ms : List (String × Json)) (h : ∀ m ∈ ms, m.1 ∈ declared) :
      known declared (ms.map fun m => (some m.1, m.2)) = some ms := by
    induction ms with
    | nil => rfl
    | cons m ms ih =>
      obtain ⟨hm, hms⟩ := List.forall_mem_cons.mp h
      simp [known, ih hms, hm]
  have hall := hknown members fun m hm => hnames.subset (List.mem_map_of_mem hm)
  rw [Json.ofMembers, ofJson?, hall, Option.bind_some, if_pos (hnames.nodup hdeclared)]

/-! ## Elements -/

/-- The elements of an array count as the members with the leading names. -/
theorem names_zip (declared : List String) (vs : List Json) :
    ((declared.zip vs).map Prod.fst).Sublist declared := by
  rw [List.zip_eq_zip_take_min, List.map_fst_zip (by simp)]
  exact List.take_sublist _ _

theorem get?_zip (hdeclared : declared.Nodup) (vs : List Json) {place : Nat}
    (h : declared[place]? = some name) : get? ⟨declared.zip vs⟩ name = vs[place]? := by
  rw [get?]
  induction declared generalizing vs place with
  | nil => simp at h
  | cons first declared ih =>
    obtain ⟨hfirst, hdeclared⟩ := List.nodup_cons.mp hdeclared
    cases vs with
    | nil => rfl
    | cons v vs =>
      rw [List.zip_cons_cons]
      cases place with
      | zero =>
        obtain rfl : first = name := by simpa using h
        simp
      | succ place =>
        rw [List.getElem?_cons_succ] at h
        have hne : (name == first) = false :=
          beq_false_of_ne fun heq => hfirst (heq ▸ List.mem_of_getElem? h)
        rw [List.lookup_cons, hne, List.getElem?_cons_succ]
        exact ih hdeclared vs h

/-! ## Declaration order -/

def inOrder (declared : List String) (ms : List (Option String × Json)) :
    List (Option String × Json) :=
  declared.flatMap fun name => ms.filter (·.1 == some name)

theorem mem_of_mem_inOrder {m : Option String × Json} (h : m ∈ inOrder declared ms) : m ∈ ms := by
  obtain ⟨name, -, hm⟩ := List.mem_flatMap.mp h
  exact List.mem_of_mem_filter hm

theorem given_append (ms ms' : List (Option String × Json)) (name : String) :
    given (ms ++ ms') name = given ms name ++ given ms' name := by
  simp [given]

theorem given_filter (ms : List (Option String × Json)) (name other : String) :
    given (ms.filter (·.1 == some other)) name = if name = other then given ms name else [] := by
  rw [given, List.filter_filter]
  split
  · next h => simp [given, h]
  · next h =>
    rw [List.map_eq_nil_iff, List.filter_eq_nil_iff]
    intro m _ heq
    rw [Bool.and_eq_true, beq_iff_eq, beq_iff_eq] at heq
    exact h (Option.some.inj (heq.1.symm.trans heq.2))

/-- The members in declaration order give what all members give, if the name is declared, and
nothing otherwise. -/
theorem given_inOrder (hdeclared : declared.Nodup) (ms : List (Option String × Json))
    (name : String) :
    given (inOrder declared ms) name = if name ∈ declared then given ms name else [] := by
  induction declared with
  | nil => rfl
  | cons other declared ih =>
    obtain ⟨hother, hdeclared⟩ := List.nodup_cons.mp hdeclared
    have hfirst : inOrder (other :: declared) ms =
        ms.filter (·.1 == some other) ++ inOrder declared ms := List.flatMap_cons
    rw [hfirst, given_append, given_filter, ih hdeclared]
    by_cases h : name = other
    · subst h
      simp [hother]
    · simp [h]

end FeedDesk.Record
