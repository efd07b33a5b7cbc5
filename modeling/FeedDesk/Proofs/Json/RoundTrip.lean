import FeedDesk.Proofs.Json.Number
import FeedDesk.Proofs.Json.Text

/-!
# Documents read back

A document is written as a text that is read as this document, if the numbers in it are literals
that can be written. Every document that is read is of this kind, so what is read can be written
and read again.
-/
namespace FeedDesk.Json

/-- A document whose numbers can be written. -/
inductive Legible : Json → Prop
  | null : Legible .null
  | bool (b : Bool) : Legible (.bool b)
  | number {n : NumberLiteral} (h : n.Legible) : Legible (.number n)
  | text (t : Option String) : Legible (.text t)
  | array {vs : List Json} (h : ∀ v ∈ vs, Legible v) : Legible (.array vs)
  | object {ms : List (Option String × Json)} (h : ∀ m ∈ ms, Legible m.2) : Legible (.object ms)

/-! ## What a document starts with -/

theorem skipSpace_cons {c : Char} (cs : List Char) (h : isSpace c = false) :
    skipSpace (c :: cs) = c :: cs := by
  rw [skipSpace, List.dropWhile_cons_of_neg (by simp [h])]

/-- A character that a number may start with. -/
theorem numberHead {c : Char} (h : c = '-' ∨ c.isDigit = true) :
    isSpace c = false ∧ c ≠ 'n' ∧ c ≠ 't' ∧ c ≠ 'f' ∧ c ≠ '"' ∧ c ≠ '[' ∧ c ≠ '{' ∧ c ≠ ']' := by
  rcases h with rfl | h
  · decide
  · obtain ⟨hlow, hhigh⟩ := Char.isDigit_iff_toNat.mp h
    have hne (d : Char) (hd : d.toNat < '0'.toNat ∨ '9'.toNat < d.toNat) : c ≠ d := by
      rintro rfl
      omega
    refine ⟨?_, hne _ ?_, hne _ ?_, hne _ ?_, hne _ ?_, hne _ ?_, hne _ ?_, hne _ ?_⟩
    · simp [isSpace, hne ' ' (by decide), hne '\t' (by decide), hne '\n' (by decide),
        hne '\r' (by decide)]
    all_goals decide

theorem head_write {j : Json} (h : j.Legible) :
    ∃ c cs, write j = c :: cs ∧ isSpace c = false ∧ c ≠ ']' := by
  cases h with
  | null => exact ⟨_, _, rfl, by decide⟩
  | bool b => cases b <;> exact ⟨_, _, rfl, by decide⟩
  | number hn =>
    obtain ⟨c, cs, heq, hc⟩ := head_writeNumber hn
    obtain ⟨hspace, -, -, -, -, -, -, hclose⟩ := numberHead hc
    exact ⟨c, cs, heq, hspace, hclose⟩
  | text t =>
    obtain ⟨cs, heq, -⟩ := writeContent_readText t
    exact ⟨_, cs, heq, by decide⟩
  | @array vs _ => cases vs <;> exact ⟨_, _, rfl, by decide⟩
  | @object ms _ => cases ms <;> exact ⟨_, _, rfl, by decide⟩

theorem EndsNumber.cons {c : Char} (rest : List Char)
    (h : c.isDigit = false ∧ c ≠ '.' ∧ c ≠ 'e' ∧ c ≠ 'E') : EndsNumber (c :: rest) := by
  intro d hd
  obtain rfl := Option.some.inj hd
  exact h

/-! ## One step of the reader -/

theorem readValue_number (fuel : Nat) {c : Char} (cs : List Char)
    (h : c = '-' ∨ c.isDigit = true) :
    readValue (fuel + 1) (c :: cs) =
      (readNumber (c :: cs)).map fun (n, rest) => (.number n, rest) := by
  obtain ⟨hspace, hn, ht, hf, hquote, hbracket, hbrace, -⟩ := numberHead h
  rw [readValue, skipSpace_cons cs hspace]
  all_goals simp_all

theorem readValue_text (fuel : Nat) (cs : List Char) :
    readValue (fuel + 1) ('"' :: cs) = (readText cs).map fun (t, rest) => (.text t, rest) := rfl

theorem readValue_array (fuel : Nat) {c : Char} (cs : List Char) (hspace : isSpace c = false)
    (hclose : c ≠ ']') :
    readValue (fuel + 1) ('[' :: c :: cs) =
      (readElements fuel (c :: cs)).map fun (vs, rest) => (.array vs, rest) := by
  rw [readValue, skipSpace_cons _ (by decide)]
  simp only [skipSpace_cons cs hspace]
  split
  · next heq => exact absurd (List.cons.inj heq).1 hclose
  · rfl

theorem readValue_object (fuel : Nat) (cs : List Char) :
    readValue (fuel + 1) ('{' :: '"' :: cs) =
      (readMembers fuel ('"' :: cs)).map fun (ms, rest) => (.object ms, rest) := rfl

section

variable {fuel : Nat} {cs cs' rest : List Char} {name : Option String} {v : Json}

theorem readElements_last (h : readValue fuel cs = some (v, ']' :: rest)) :
    readElements (fuel + 1) cs = some ([v], rest) := by
  simp only [readElements, h, skipSpace_cons _ (show isSpace ']' = false by decide)]

theorem readElements_more (h : readValue fuel cs = some (v, ',' :: rest)) :
    readElements (fuel + 1) cs =
      (readElements fuel rest).map fun (vs, rest) => (v :: vs, rest) := by
  simp only [readElements, h, skipSpace_cons _ (show isSpace ',' = false by decide)]

theorem readMembers_last (hname : readText cs = some (name, ':' :: cs'))
    (h : readValue fuel cs' = some (v, '}' :: rest)) :
    readMembers (fuel + 1) ('"' :: cs) = some ([(name, v)], rest) := by
  simp only [readMembers, hname, h, skipSpace_cons _ (show isSpace '"' = false by decide),
    skipSpace_cons _ (show isSpace ':' = false by decide),
    skipSpace_cons _ (show isSpace '}' = false by decide)]

theorem readMembers_more (hname : readText cs = some (name, ':' :: cs'))
    (h : readValue fuel cs' = some (v, ',' :: rest)) :
    readMembers (fuel + 1) ('"' :: cs) =
      (readMembers fuel rest).map fun (ms, rest) => ((name, v) :: ms, rest) := by
  simp only [readMembers, hname, h, skipSpace_cons _ (show isSpace '"' = false by decide),
    skipSpace_cons _ (show isSpace ':' = false by decide),
    skipSpace_cons _ (show isSpace ',' = false by decide)]

end

/-! ## Reading what was written -/

/-- The document is read from its written form, with two steps for each character. -/
def ReadsBack (j : Json) : Prop :=
  ∀ fuel rest, 2 * (write j).length ≤ fuel → EndsNumber rest →
    readValue (fuel + 1) (write j ++ rest) = some (j, rest)

theorem readElements_write {v : Json} {vs : List Json} (hv : ReadsBack v)
    (hvs : ∀ w ∈ vs, ReadsBack w) (fuel : Nat) (rest : List Char)
    (hfuel : 2 * ((write v).length + (writeElements vs).length) ≤ fuel) :
    readElements (fuel + 2) (write v ++ (writeElements vs ++ ']' :: rest)) =
      some (v :: vs, rest) := by
  induction vs generalizing v fuel with
  | nil =>
    rw [writeElements, List.length_nil] at hfuel
    exact readElements_last (hv fuel (']' :: rest) hfuel (EndsNumber.cons _ (by decide)))
  | cons w vs ih =>
    simp only [writeElements, List.cons_append, List.append_assoc, List.length_cons,
      List.length_append] at hfuel ⊢
    obtain ⟨fuel, rfl⟩ := Nat.exists_eq_add_of_le' (show 1 ≤ fuel by omega)
    have hfirst := hv (fuel + 1) (',' :: (write w ++ (writeElements vs ++ ']' :: rest))) (by omega)
      (EndsNumber.cons _ (by decide))
    have hothers := ih (hvs w List.mem_cons_self) (fun u hu => hvs u (List.mem_cons_of_mem w hu))
      fuel (by omega)
    rw [readElements_more hfirst, hothers]
    rfl

theorem readMembers_write (name : Option String) {v : Json} {ms : List (Option String × Json)}
    (hv : ReadsBack v) (hms : ∀ m ∈ ms, ReadsBack m.2) (fuel : Nat) (rest : List Char)
    (hfuel : 2 * ((write v).length + (writeMembers ms).length) ≤ fuel) :
    readMembers (fuel + 2)
        (writeContent name ++ ':' :: (write v ++ (writeMembers ms ++ '}' :: rest))) =
      some ((name, v) :: ms, rest) := by
  induction ms generalizing name v fuel with
  | nil =>
    obtain ⟨cs, hname, hread⟩ := writeContent_readText name
    rw [writeMembers, List.length_nil] at hfuel
    rw [hname, List.cons_append]
    exact readMembers_last (hread _)
      (hv fuel ('}' :: rest) hfuel (EndsNumber.cons _ (by decide)))
  | cons m ms ih =>
    obtain ⟨name', w⟩ := m
    obtain ⟨cs, hname, hread⟩ := writeContent_readText name
    simp only [writeMembers, List.cons_append, List.append_assoc, List.length_cons,
      List.length_append] at hfuel ⊢
    obtain ⟨fuel, rfl⟩ := Nat.exists_eq_add_of_le' (show 1 ≤ fuel by omega)
    have hfirst := hv (fuel + 1)
      (',' :: (writeContent name' ++ ':' :: (write w ++ (writeMembers ms ++ '}' :: rest))))
      (by omega) (EndsNumber.cons _ (by decide))
    have hothers := ih name' (hms _ List.mem_cons_self)
      (fun u hu => hms u (List.mem_cons_of_mem _ hu)) fuel (by simp only; omega)
    rw [hname, List.cons_append, readMembers_more (hread _) hfirst, hothers]
    rfl

theorem readsBack_array {vs : List Json} (h : ∀ v ∈ vs, v.Legible) (hvs : ∀ v ∈ vs, ReadsBack v) :
    ReadsBack (.array vs) := by
  intro fuel rest hfuel _
  cases vs with
  | nil => rfl
  | cons v vs =>
    simp only [write, List.cons_append, List.length_cons, List.length_append, List.append_assoc,
      List.nil_append, List.length_nil] at hfuel ⊢
    obtain ⟨fuel, rfl⟩ := Nat.exists_eq_add_of_le' (show 2 ≤ fuel by omega)
    obtain ⟨c, cs, heq, hspace, hclose⟩ := head_write (h v List.mem_cons_self)
    have hread := readElements_write (hvs v List.mem_cons_self)
      (fun w hw => hvs w (List.mem_cons_of_mem v hw)) fuel rest (by omega)
    rw [heq, List.cons_append] at hread ⊢
    rw [readValue_array _ _ hspace hclose, hread]
    rfl

theorem readsBack_object {ms : List (Option String × Json)} (hms : ∀ m ∈ ms, ReadsBack m.2) :
    ReadsBack (.object ms) := by
  intro fuel rest hfuel _
  cases ms with
  | nil => rfl
  | cons m ms =>
    obtain ⟨name, v⟩ := m
    simp only [write, List.cons_append, List.length_cons, List.length_append, List.append_assoc,
      List.nil_append, List.length_nil] at hfuel ⊢
    obtain ⟨fuel, rfl⟩ := Nat.exists_eq_add_of_le' (show 2 ≤ fuel by omega)
    obtain ⟨cs, heq, -⟩ := writeContent_readText name
    have hread := readMembers_write name (hms _ List.mem_cons_self)
      (fun u hu => hms u (List.mem_cons_of_mem _ hu)) fuel rest (by simp only; omega)
    rw [heq, List.cons_append] at hread ⊢
    rw [readValue_object, hread]
    rfl

theorem readsBack {j : Json} (h : j.Legible) : ReadsBack j := by
  induction h with
  | null => exact fun fuel rest _ _ => rfl
  | bool b => cases b <;> exact fun fuel rest _ _ => rfl
  | number hn =>
    intro fuel rest _ hrest
    obtain ⟨c, cs, heq, hc⟩ := head_writeNumber hn
    have hread := readNumber_writeNumber hn hrest
    rw [write, heq, List.cons_append] at *
    rw [readValue_number fuel _ hc, hread]
    rfl
  | text t =>
    intro fuel rest _ _
    obtain ⟨cs, heq, hread⟩ := writeContent_readText t
    rw [write, heq, List.cons_append, readValue_text, hread]
    rfl
  | array h ih => exact readsBack_array h ih
  | object _ ih => exact readsBack_object ih

theorem parse?_render {j : Json} (h : j.Legible) : parse? (render j) = some j := by
  have hread := readsBack h (2 * (write j).length + 1) [] (by omega) (fun c hc => nomatch hc)
  rw [List.append_nil] at hread
  simp [parse?, render, String.toList_ofList, hread, skipSpace]

/-! ## Writing what was read -/

/-- With this fuel, whatever is read can be written. -/
structure ReadsLegible (fuel : Nat) : Prop where
  value : ∀ {cs j rest}, readValue fuel cs = some (j, rest) → j.Legible
  elements : ∀ {cs vs rest}, readElements fuel cs = some (vs, rest) → ∀ v ∈ vs, v.Legible
  members : ∀ {cs ms rest}, readMembers fuel cs = some (ms, rest) → ∀ m ∈ ms, m.2.Legible

section

variable {fuel : Nat} {cs rest : List Char}

theorem ReadsLegible.value_succ (ih : ReadsLegible fuel) {j : Json}
    (h : readValue (fuel + 1) cs = some (j, rest)) : j.Legible := by
  rw [readValue] at h
  split at h
  · cases h
    exact .null
  · cases h
    exact .bool true
  · cases h
    exact .bool false
  · obtain ⟨⟨t, _⟩, -, heq⟩ := Option.map_eq_some_iff.mp h
    cases heq
    exact .text t
  · split at h
    · cases h
      exact .array (fun v hv => nomatch hv)
    · obtain ⟨⟨vs, _⟩, hvs, heq⟩ := Option.map_eq_some_iff.mp h
      cases heq
      exact .array (ih.elements hvs)
  · split at h
    · cases h
      exact .object (fun m hm => nomatch hm)
    · obtain ⟨⟨ms, _⟩, hms, heq⟩ := Option.map_eq_some_iff.mp h
      cases heq
      exact .object (ih.members hms)
  · obtain ⟨⟨n, _⟩, hn, heq⟩ := Option.map_eq_some_iff.mp h
    cases heq
    exact .number (legible_of_readNumber hn)

theorem ReadsLegible.elements_succ (ih : ReadsLegible fuel) {vs : List Json}
    (h : readElements (fuel + 1) cs = some (vs, rest)) : ∀ v ∈ vs, v.Legible := by
  rw [readElements] at h
  split at h
  · cases h
  · next hv =>
    split at h
    · obtain ⟨⟨vs', _⟩, hvs, heq⟩ := Option.map_eq_some_iff.mp h
      cases heq
      exact List.forall_mem_cons.mpr ⟨ih.value hv, ih.elements hvs⟩
    · cases h
      exact List.forall_mem_singleton.mpr (ih.value hv)
    · cases h

theorem ReadsLegible.members_succ (ih : ReadsLegible fuel) {ms : List (Option String × Json)}
    (h : readMembers (fuel + 1) cs = some (ms, rest)) : ∀ m ∈ ms, m.2.Legible := by
  rw [readMembers] at h
  split at h
  on_goal 2 => cases h
  split at h
  · cases h
  split at h
  on_goal 2 => cases h
  split at h
  · cases h
  · next hv =>
    split at h
    · obtain ⟨⟨ms', _⟩, hms, heq⟩ := Option.map_eq_some_iff.mp h
      cases heq
      exact List.forall_mem_cons.mpr ⟨ih.value hv, ih.members hms⟩
    · cases h
      exact List.forall_mem_singleton.mpr (ih.value hv)
    · cases h

end

theorem readsLegible (fuel : Nat) : ReadsLegible fuel := by
  induction fuel with
  | zero =>
    refine ⟨fun h => ?_, fun h => ?_, fun h => ?_⟩
    · rw [readValue] at h
      cases h
    · rw [readElements] at h
      cases h
    · rw [readMembers] at h
      cases h
  | succ fuel ih => exact ⟨ih.value_succ, ih.elements_succ, ih.members_succ⟩

theorem legible_of_parse? {text : String} {j : Json} (h : parse? text = some j) : j.Legible := by
  simp only [parse?] at h
  split at h
  · next v rest hread =>
    split at h
    · cases h
      exact (readsLegible _).value hread
    · cases h
  · cases h

end FeedDesk.Json
