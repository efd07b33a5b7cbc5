import FeedDesk.Remote.Exchange

/-!
# Bodies in chunks

The body of a response is joined chunk by chunk, and nothing is joined that goes beyond the limit.
So as much as the limit is held at any time, and whether a body is read depends on its bytes alone:
neither on the places where it is split, nor on whether its length was announced.
-/
namespace FeedDesk

def joined (chunks : List ByteArray) : ByteArray := chunks.foldr (· ++ ·) .empty

def totalSize (chunks : List ByteArray) : Nat := chunks.foldr (fun chunk n => chunk.size + n) 0

/-- A body with no other announced length than its own. -/
def Announces (declared : Option Nat) (chunks : List ByteArray) : Prop :=
  ∀ length, declared = some length → length = totalSize chunks

/-- The answer to reading a body up to a limit. Between any two chunks the bytes in front are held,
which are no more than the limit, and the answer is what comes of them and the chunks behind,
unless there were too many bytes already. -/
structure ReadsUpTo (limit : Nat) (chunks : List ByteArray) (answer : Answer ByteArray) :
    Prop where
  joined_iff : answer = .ok (joined chunks) ↔ totalSize chunks ≤ limit
  tooLarge_iff : answer = .error .tooLarge ↔ limit < totalSize chunks
  between : ∀ front back, chunks = front ++ back →
    (∃ held, joinChunks limit .empty front = .ok held ∧ held = joined front ∧
        held.size ≤ limit ∧ answer = joinChunks limit held back) ∨
      (joinChunks limit .empty front = .error .tooLarge ∧ answer = .error .tooLarge)

/-! ## Chunks -/

section
variable {limit : Nat} {held : ByteArray}

theorem joined_cons (chunk : ByteArray) (chunks : List ByteArray) :
    joined (chunk :: chunks) = chunk ++ joined chunks := rfl

theorem totalSize_nil : totalSize [] = 0 := rfl

theorem totalSize_cons (chunk : ByteArray) (chunks : List ByteArray) :
    totalSize (chunk :: chunks) = chunk.size + totalSize chunks := rfl

theorem size_joined (chunks : List ByteArray) : (joined chunks).size = totalSize chunks := by
  induction chunks with
  | nil => exact ByteArray.size_empty
  | cons chunk chunks ih => rw [joined_cons, ByteArray.size_append, ih, totalSize_cons]

theorem joinChunks_eq (chunks : List ByteArray) (h : held.size ≤ limit) :
    joinChunks limit held chunks =
      if limit < held.size + totalSize chunks then .error .tooLarge
      else .ok (held ++ joined chunks) := by
  induction chunks generalizing held with
  | nil =>
    have hwithin : ¬ limit < held.size + totalSize [] := Nat.not_lt.mpr h
    rw [joinChunks, if_neg hwithin]
    exact congrArg Except.ok ByteArray.append_empty.symm
  | cons chunk chunks ih =>
    rw [joinChunks, totalSize_cons]
    split
    next hover => rw [if_pos (by omega)]
    next hfits =>
      have hsize : (held ++ chunk).size = held.size + chunk.size := ByteArray.size_append
      rw [ih (by omega), hsize, Nat.add_assoc, joined_cons, ByteArray.append_assoc]

theorem joinChunks_empty (chunks : List ByteArray) :
    joinChunks limit .empty chunks =
      if limit < totalSize chunks then .error .tooLarge else .ok (joined chunks) := by
  rw [joinChunks_eq chunks (Nat.zero_le limit), ByteArray.size_empty, Nat.zero_add,
    ByteArray.empty_append]

theorem joinChunks_append (front back : List ByteArray) :
    joinChunks limit held (front ++ back) =
      (joinChunks limit held front).bind fun held => joinChunks limit held back := by
  induction front generalizing held with
  | nil => rfl
  | cons chunk front ih =>
    rw [List.cons_append, joinChunks, joinChunks]
    split
    · rfl
    · exact ih

end

/-! ## Bodies -/

section
variable {limit : Nat}

theorem readBody_eq {r : HttpResponse} (h : Announces r.declared r.chunks) :
    readBody limit r =
      if limit < totalSize r.chunks then .error .tooLarge
      else if r.complete then .ok (joined r.chunks) else .error .unreachable := by
  rw [readBody, joinChunks_empty]
  by_cases hover : limit < totalSize r.chunks
  · simp only [hover, if_true]
    split <;> rfl
  · have hdeclared : r.declared.any (limit < ·) = false := by
      cases hlength : r.declared with
      | none => rfl
      | some length =>
        obtain rfl := h length hlength
        simpa using hover
    simp only [hdeclared, hover, if_false, Bool.false_eq_true]

/-- A whole body is read by the loop alone: an announced length that is too large ends the reading
earlier, but with the same answer. -/
theorem readBody_eq_joinChunks {status : Nat} {declared : Option Nat} {chunks : List ByteArray}
    (h : Announces declared chunks) :
    readBody limit ⟨status, declared, chunks, true⟩ = joinChunks limit .empty chunks :=
  (readBody_eq h).trans (joinChunks_empty chunks).symm

theorem readsUpTo_joinChunks (limit : Nat) (chunks : List ByteArray) :
    ReadsUpTo limit chunks (joinChunks limit .empty chunks) where
  joined_iff := by
    rw [joinChunks_empty]
    split <;> simp <;> omega
  tooLarge_iff := by
    rw [joinChunks_empty]
    split <;> simp <;> omega
  between := by
    rintro front back rfl
    rw [joinChunks_append, joinChunks_empty]
    by_cases hover : limit < totalSize front
    · rw [if_pos hover]
      exact .inr ⟨rfl, rfl⟩
    · rw [if_neg hover]
      refine .inl ⟨_, rfl, rfl, ?_, rfl⟩
      rw [size_joined]
      exact Nat.not_lt.mp hover

/-- A body of at most ten mebibytes is read as the bytes of its chunks, and a larger one is
refused, however the bytes are split and whether or not their number is announced. At no time is
more than the limit held. -/
theorem readBody_up_to_limit (status : Nat) (declared : Option Nat) (chunks : List ByteArray)
    (h : Announces declared chunks) :
    bodyLimit = 10 * Nat.pow 2 20 ∧
      ReadsUpTo bodyLimit chunks (readBody bodyLimit ⟨status, declared, chunks, true⟩) ∧
      ∀ (status' : Nat) (declared' : Option Nat) (chunks' : List ByteArray),
        Announces declared' chunks' → joined chunks' = joined chunks →
        readBody bodyLimit ⟨status', declared', chunks', true⟩ =
          readBody bodyLimit ⟨status, declared, chunks, true⟩ := by
  refine ⟨rfl, ?_, fun status' declared' chunks' h' hsame => ?_⟩
  · rw [readBody_eq_joinChunks h]
    exact readsUpTo_joinChunks bodyLimit chunks
  · rw [readBody_eq_joinChunks h, readBody_eq_joinChunks h', joinChunks_empty, joinChunks_empty,
      ← size_joined, ← size_joined, hsame]

def blankBytes (size : Nat) : ByteArray := ⟨Array.replicate size 0⟩

theorem size_blankBytes (size : Nat) : (blankBytes size).size = size := Array.size_replicate

/-- As many bytes as the limit are read at once, and one more behind them is too many. -/
theorem full_body_read :
    Announces (some bodyLimit) [blankBytes bodyLimit] ∧
      readBody bodyLimit ⟨200, some bodyLimit, [blankBytes bodyLimit], true⟩ =
        .ok (joined [blankBytes bodyLimit]) ∧
      Announces none [blankBytes bodyLimit, blankBytes 1] ∧
      readBody bodyLimit ⟨200, none, [blankBytes bodyLimit, blankBytes 1], true⟩ =
        .error .tooLarge := by
  have hfull : totalSize [blankBytes bodyLimit] = bodyLimit := by
    rw [totalSize_cons, size_blankBytes, totalSize_nil, Nat.add_zero]
  have hmore : totalSize [blankBytes bodyLimit, blankBytes 1] = bodyLimit + 1 := by
    rw [totalSize_cons, totalSize_cons, size_blankBytes, size_blankBytes, totalSize_nil]
  have hannounced : Announces (some bodyLimit) [blankBytes bodyLimit] := by
    rintro _ ⟨⟩
    exact hfull.symm
  have hsilent : Announces none [blankBytes bodyLimit, blankBytes 1] := by
    rintro _ ⟨⟩
  refine ⟨hannounced, ?_, hsilent, ?_⟩
  · exact (readBody_up_to_limit 200 _ _ hannounced).2.1.joined_iff.mpr (Nat.le_of_eq hfull)
  · exact (readBody_up_to_limit 200 _ _ hsilent).2.1.tooLarge_iff.mpr (by omega)

end

end FeedDesk
