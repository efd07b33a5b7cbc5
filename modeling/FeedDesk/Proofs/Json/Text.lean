import FeedDesk.Json.Printer

/-!
# Texts read back

What is written for a text is read as this text, whatever characters it has, and what is written
in place of a text without content is read as one without content.
-/
namespace FeedDesk.Json

open Number

def shortEscaped : List Char := ['"', '\\', '\x08', '\x0c', '\n', '\r', '\t']

theorem escapeChar_short {c : Char} (h : c ∈ shortEscaped) :
    ∃ d, escapeChar c = ['\\', d] ∧ shortEscape? d = some c := by
  simp only [shortEscaped, List.mem_cons, List.not_mem_nil, or_false] at h
  rcases h with rfl | rfl | rfl | rfl | rfl | rfl | rfl <;> exact ⟨_, rfl, rfl⟩

theorem escapeChar_control {c : Char} (hshort : c ∉ shortEscaped) (h : c < ' ') :
    ∃ x y z w, escapeChar c = ['\\', 'u', x, y, z, w] ∧ readHex? [x, y, z, w] = some c.toNat := by
  have hall : ∀ n < 32, (hexDigits 4 n).length = 4 ∧ readHex? (hexDigits 4 n) = some n := by decide
  obtain ⟨hlength, hread⟩ := hall c.toNat h
  simp only [shortEscaped, List.mem_cons, List.not_mem_nil, not_or] at hshort
  match heq : hexDigits 4 c.toNat, hlength with
  | [x, y, z, w], _ =>
    refine ⟨x, y, z, w, ?_, heq ▸ hread⟩
    simp [escapeChar, hshort, h, heq]

theorem escapeChar_plain {c : Char} (hshort : c ∉ shortEscaped) (h : ¬ c < ' ') :
    escapeChar c = [c] := by
  simp only [shortEscaped, List.mem_cons, List.not_mem_nil, not_or] at hshort
  simp [escapeChar, hshort, h]

theorem readPieces_plain (read : List Piece) {c : Char} (rest : List Char)
    (hshort : c ∉ shortEscaped) (hlow : ¬ c < ' ') :
    readPieces read (c :: rest) = readPieces (.plain c :: read) rest := by
  have hquote : c ≠ '"' := fun h => hshort (h ▸ by decide)
  have hslash : c ≠ '\\' := fun h => hshort (h ▸ by decide)
  rw [readPieces]
  · simp [hlow, hslash]
  all_goals simp_all

theorem readPieces_short (read : List Piece) {c d : Char} (rest : List Char)
    (h : shortEscape? d = some c) :
    readPieces read ('\\' :: d :: rest) = readPieces (.plain c :: read) rest := by
  have hu : d ≠ 'u' := by
    rintro rfl
    cases h
  rw [readPieces]
  · simp [h]
  all_goals simp_all

theorem readPieces_unit (read : List Piece) {a b c d : Char} {u : Nat} (rest : List Char)
    (h : readHex? [a, b, c, d] = some u) :
    readPieces read ('\\' :: 'u' :: a :: b :: c :: d :: rest) =
      readPieces (.unit u :: read) rest := by
  simp [readPieces, h]

theorem assemble_unit {u : Nat} (h : u < 0xd800) (ps : List Piece) :
    assemble (.unit u :: ps) = (assemble ps).map (Char.ofNat u :: ·) := by
  rw [assemble.eq_def]
  have hhigh : isHighSurrogate u = false := by simp [isHighSurrogate]; omega
  have hlow : isLowSurrogate u = false := by simp [isLowSurrogate]; omega
  simp [hhigh, hlow]

theorem readPieces_escapeChar (c : Char) :
    ∃ p : Piece, (∀ ps, assemble (p :: ps) = (assemble ps).map (c :: ·)) ∧
      ∀ read rest, readPieces read (escapeChar c ++ rest) = readPieces (p :: read) rest := by
  by_cases hshort : c ∈ shortEscaped
  · obtain ⟨d, heq, hd⟩ := escapeChar_short hshort
    exact ⟨.plain c, fun _ => rfl, fun read rest => heq ▸ readPieces_short read rest hd⟩
  by_cases hlow : c < ' '
  · obtain ⟨x, y, z, w, heq, hread⟩ := escapeChar_control hshort hlow
    have hbound : c.toNat < 32 := hlow
    refine ⟨.unit c.toNat, fun ps => ?_, fun read rest => heq ▸ readPieces_unit read rest hread⟩
    rw [assemble_unit (by omega), Char.ofNat_toNat]
  · exact ⟨.plain c, fun _ => rfl, fun read rest =>
      escapeChar_plain hshort hlow ▸ readPieces_plain read rest hshort hlow⟩

/-- The escaped characters of a text are read as pieces that denote the text. -/
theorem readPieces_escaped (cs : List Char) :
    ∃ ps : List Piece, assemble ps = some cs ∧ ∀ read rest,
      readPieces read (cs.flatMap escapeChar ++ '"' :: rest) = some (read.reverse ++ ps, rest) := by
  induction cs with
  | nil => exact ⟨[], rfl, fun read rest => by simp [readPieces]⟩
  | cons c cs ih =>
    obtain ⟨p, hdenotes, hstep⟩ := readPieces_escapeChar c
    obtain ⟨ps, hps, hread⟩ := ih
    refine ⟨p :: ps, by rw [hdenotes, hps]; rfl, fun read rest => ?_⟩
    rw [List.flatMap_cons, List.append_assoc, hstep, hread, List.reverse_cons, List.append_assoc]
    rfl

theorem readText_escaped (cs rest : List Char) :
    readText (cs.flatMap escapeChar ++ '"' :: rest) = some (some (String.ofList cs), rest) := by
  obtain ⟨ps, hps, hread⟩ := readPieces_escaped cs
  simp [readText, hread, hps]

theorem readText_surrogate (rest : List Char) :
    readText ('\\' :: 'u' :: 'd' :: '8' :: '0' :: '0' :: '"' :: rest) = some (none, rest) := by
  rw [readText, readPieces_unit [] _ (show readHex? _ = some 0xd800 by decide), readPieces]
  rfl

/-- A text is written behind a quote, and is read from what follows the quote. -/
theorem writeContent_readText (t : Option String) :
    ∃ cs, writeContent t = '"' :: cs ∧ ∀ rest, readText (cs ++ rest) = some (t, rest) := by
  cases t with
  | none => exact ⟨_, rfl, fun rest => readText_surrogate rest⟩
  | some s =>
    refine ⟨s.toList.flatMap escapeChar ++ ['"'], rfl, fun rest => ?_⟩
    rw [List.append_assoc]
    exact (readText_escaped s.toList rest).trans (by rw [String.ofList_toList])

end FeedDesk.Json
