import FeedDesk.Proofs.Dialog.Run
import Mathlib.Data.List.Chain
import Mathlib.Data.List.Infix

/-!
# The transmit sign in the calls to the host

The host is told to show the transmit sign and to take it away. Of a history of calls it can be
read off whether these alternate, whether the sign is up at the end, and how often it was shown for
each batch. A batch begins where the controls are withdrawn.
-/
namespace FeedDesk

def HostCall.sign? : HostCall → Option Bool
  | .transmit visible => some visible
  | _ => none

def signsOf (calls : List HostCall) : List Bool := calls.filterMap HostCall.sign?

/-- Whether a sign is shown and taken away in turn, and shown first. -/
structure Alternates (signs : List Bool) : Prop where
  first : signs.head? ≠ some false
  chain : signs.IsChain (· ≠ ·)

def countShown (shown : Nat) : HostCall → Nat
  | .controls false => 0
  | .transmit true => shown + 1
  | _ => shown

def shownSinceBatch (calls : List HostCall) : Nat := calls.foldl countShown 0

/-- Whether a call neither begins a batch nor sets the sign. -/
def HostCall.isPlain : HostCall → Bool
  | .controls false | .transmit _ => false
  | _ => true

/-- The calls of a view that shows the sign properly, with whether it is up at the end: it is shown
and taken away in turn, and shown once for each batch at most. -/
structure Signed (calls : List HostCall) (visible : Bool) : Prop where
  alternating : Alternates (signsOf calls)
  last : (signsOf calls).getLast? = some true ↔ visible = true
  once : ∀ past, past <+: calls → shownSinceBatch past ≤ 1
  counted : visible = true → shownSinceBatch calls = 1

@[simp] theorem signsOf_append (a b : List HostCall) : signsOf (a ++ b) = signsOf a ++ signsOf b :=
  List.filterMap_append

theorem shownSinceBatch_concat (calls : List HostCall) (call : HostCall) :
    shownSinceBatch (calls ++ [call]) = countShown (shownSinceBatch calls) call :=
  List.foldl_append

theorem countShown_of_plain {call : HostCall} (h : call.isPlain = true) (shown : Nat) :
    countShown shown call = shown := by
  cases call with
  | controls enabled => cases enabled <;> simp_all [HostCall.isPlain, countShown]
  | transmit => cases h
  | _ => rfl

theorem sign_of_plain {call : HostCall} (h : call.isPlain = true) : call.sign? = none := by
  cases call with
  | transmit => cases h
  | _ => rfl

theorem shownSinceBatch_of_plain {new : List HostCall} (h : ∀ call ∈ new, call.isPlain = true)
    (calls : List HostCall) : shownSinceBatch (calls ++ new) = shownSinceBatch calls := by
  induction new generalizing calls with
  | nil => rw [List.append_nil]
  | cons call new ih =>
    obtain ⟨hcall, hnew⟩ := List.forall_mem_cons.mp h
    rw [List.append_cons, ih hnew, shownSinceBatch_concat, countShown_of_plain hcall]

/-- Where no batch begins, all that is shown counts for one batch. -/
theorem shownSinceBatch_append {calls new : List HostCall} (h : .controls false ∉ new) :
    shownSinceBatch (calls ++ new) = shownSinceBatch calls + new.count (.transmit true) := by
  induction new generalizing calls with
  | nil => rw [List.append_nil, List.count_nil, Nat.add_zero]
  | cons call new ih =>
    have hcall : countShown (shownSinceBatch calls) call =
        shownSinceBatch calls + if call = .transmit true then 1 else 0 := by
      have hne : .controls false ≠ call := fun he => h (he ▸ List.mem_cons_self)
      cases call with
      | controls enabled => cases enabled <;> simp_all [countShown]
      | transmit visible => cases visible <;> simp [countShown]
      | _ => rfl
    rw [List.append_cons, ih fun hmem => h (List.mem_cons_of_mem _ hmem),
      shownSinceBatch_concat, hcall, List.count_cons]
    simp only [beq_iff_eq]
    omega

/-! ## Signs set in turn -/

theorem Alternates.nil : Alternates [] := ⟨by simp, .nil⟩

theorem Alternates.concat {signs : List Bool} {visible : Bool} (h : Alternates signs)
    (hlast : signs.getLast? = some true ↔ visible = false) : Alternates (signs ++ [visible]) := by
  constructor
  · cases signs with
    | nil => simp_all
    | cons first rest => exact h.first
  · refine List.isChain_append.mpr ⟨h.chain, .singleton _, ?_⟩
    intro a ha b hb
    obtain rfl : visible = b := by simpa using hb
    cases a <;> cases visible <;> simp_all

namespace Signed

variable {calls : List HostCall} {visible : Bool}

theorem nil : Signed [] false where
  alternating := .nil
  last := by simp [signsOf]
  once past h := by simp [List.prefix_nil.mp h, shownSinceBatch]
  counted h := by simp at h

theorem once_concat {call : HostCall} (h : Signed calls visible)
    (hshown : countShown (shownSinceBatch calls) call ≤ 1) :
    ∀ past, past <+: calls ++ [call] → shownSinceBatch past ≤ 1 := by
  intro past hpast
  rcases List.prefix_concat_iff.mp hpast with rfl | hpast
  · rwa [shownSinceBatch_concat]
  · exact h.once past hpast

theorem plain {new : List HostCall} (h : Signed calls visible)
    (hnew : ∀ call ∈ new, call.isPlain = true) : Signed (calls ++ new) visible := by
  induction new generalizing calls with
  | nil => rwa [List.append_nil]
  | cons call new ih =>
    obtain ⟨hcall, hrest⟩ := List.forall_mem_cons.mp hnew
    rw [List.append_cons]
    refine ih ?_ hrest
    have hsigns : signsOf (calls ++ [call]) = signsOf calls := by
      simp [signsOf, sign_of_plain hcall]
    refine ⟨?_, ?_, h.once_concat ?_, ?_⟩
    · rw [hsigns]
      exact h.alternating
    · rw [hsigns]
      exact h.last
    · rw [countShown_of_plain hcall]
      exact h.once calls (List.prefix_refl calls)
    · rw [shownSinceBatch_concat, countShown_of_plain hcall]
      exact h.counted

theorem begin (h : Signed calls false) : Signed (calls ++ [.controls false]) false := by
  have hsigns : signsOf (calls ++ [.controls false]) = signsOf calls := by
    rw [signsOf_append]
    exact List.append_nil _
  refine ⟨?_, ?_, h.once_concat (Nat.zero_le 1), by simp⟩
  · rw [hsigns]
    exact h.alternating
  · rw [hsigns]
    exact h.last

theorem raise (h : Signed calls false) (hnone : shownSinceBatch calls = 0) :
    Signed (calls ++ [.transmit true]) true where
  alternating := by
    rw [signsOf_append]
    exact h.alternating.concat (by simpa using h.last)
  last := by
    rw [signsOf_append]
    simp [signsOf, HostCall.sign?]
  once := h.once_concat (by simp [countShown, hnone])
  counted _ := by rw [shownSinceBatch_concat, countShown, hnone]

theorem hide {s : Session} (h : Signed calls s.transmitVisible) :
    Signed (calls ++ hostCallsOf s.signOff) false ∧
      shownSinceBatch (calls ++ hostCallsOf s.signOff) = shownSinceBatch calls := by
  unfold Session.signOff
  cases hv : s.transmitVisible with
  | false =>
    rw [hv] at h
    simpa using h
  | true =>
    rw [hv] at h
    have hcalls : hostCallsOf (if true = true then [.host (.transmit false)] else []) =
        [.transmit false] := rfl
    rw [hcalls]
    refine ⟨⟨?_, ?_, h.once_concat ?_, by simp⟩, shownSinceBatch_concat ..⟩
    · rw [signsOf_append]
      exact h.alternating.concat (by simpa using h.last)
    · rw [signsOf_append]
      simp [signsOf, HostCall.sign?]
    · exact h.once calls (List.prefix_refl calls)

/-- Between two calls that begin a batch the sign is shown once at most. -/
theorem once_between (h : Signed calls visible) {a b c : List HostCall} (he : calls = a ++ b ++ c)
    (hb : .controls false ∉ b) : b.count (.transmit true) ≤ 1 := by
  have hle := h.once (a ++ b) ⟨c, he.symm⟩
  rw [shownSinceBatch_append hb] at hle
  omega

end Signed

end FeedDesk
