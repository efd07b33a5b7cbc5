import FeedDesk.Proofs.Desk.Moves

/-!
# Events of other sessions

An event that is stamped by another session than the open one is a stray, and so is every event
that comes to a closed view. Tokens tell sessions apart over the whole history of a desk, so a run
from which deliveries of strays are left out cannot be told from the full run.
-/
namespace FeedDesk

/-- What an operation gives back to its caller. Handling an event gives back nothing. -/
inductive Returned where
  | opened (token : SessionToken)
  | answered (outcome : Except DialogError Unit)

def Returned.token? : Returned → Option SessionToken
  | .opened token => some token
  | .answered _ => none

/-- Whether an event is a stray to a view, of which it is known how often it was opened and which
tokens are handed out over the run: the view is closed, or the event carries the token of another
session than the last, or a token that is never handed out. -/
def Event.Stray (tokens : List SessionToken) (opened : Nat) (d : Dialog) (event : Event) : Prop :=
  d.phase = .closed ∨ (∃ i, tokens[i]? = some event.token ∧ i + 1 ≠ opened) ∨
    event.token ∉ tokens

namespace Desk

variable {σ : Type} {remote : Remote σ}

def returned (desk : Desk σ) : Move → List Returned
  | .operate (.openOn source) => [.opened (desk.after (.openOn source)).dialog.lastToken]
  | .operate (.deliver _) => []
  | .operate op => [.answered (desk.perform op).1]
  | _ => []

def results (remote : Remote σ) (desk : Desk σ) : List Move → List Returned
  | [] => []
  | m :: ms => desk.returned m ++ results remote (desk.move remote m) ms

def tokensOf (remote : Remote σ) (desk : Desk σ) (ms : List Move) : List SessionToken :=
  (desk.results remote ms).filterMap Returned.token?

/-- `kept` is what is left of a run when deliveries of strays are left out of it. A stray that
waits in the queue is taken from it without being handled, and a move that settles the desk may be
taken apart into the moves it is made of. -/
inductive Thins (remote : Remote σ) (tokens : List SessionToken) :
    Nat → Desk σ → List Move → List Move → Prop
  | nil (opened : Nat) (desk : Desk σ) : Thins remote tokens opened desk [] []
  | keep {opened : Nat} {desk : Desk σ} (m : Move) {ms kept : List Move}
      (h : Thins remote tokens (opened + m.openings) (desk.move remote m) ms kept) :
    Thins remote tokens opened desk (m :: ms) (m :: kept)
  | drop {opened : Nat} {desk : Desk σ} {event : Event} {ms kept : List Move}
      (hs : event.Stray tokens opened desk.dialog)
      (h : Thins remote tokens opened (desk.after (.deliver event)) ms kept) :
    Thins remote tokens opened desk (.operate (.deliver event) :: ms) kept
  | dismiss {opened : Nat} {desk : Desk σ} {event : Event} {rest : List Event}
      {ms kept : List Move} (hq : desk.queue = event :: rest)
      (hs : event.Stray tokens opened desk.dialog)
      (h : Thins remote tokens opened desk.handleNext ms kept) :
    Thins remote tokens opened desk (.handleNext :: ms) (.dismissNext :: kept)
  | unfold {opened : Nat} {desk : Desk σ} {steps ms kept : List Move}
      (hsteps : ∀ m ∈ steps, m.Settles) (he : desk.settle remote = desk.moves remote steps)
      (h : Thins remote tokens opened desk (steps ++ ms) kept) :
    Thins remote tokens opened desk (.settle :: ms) kept

structure Opened (opened : Nat) (desk : Desk σ) : Prop where
  coherent : desk.dialog.Coherent
  stamped : desk.dialog.Stamped opened

theorem opened_create (settings : DialogSettings) (wallClock : Int64) (s : σ) :
    (create settings wallClock s).Opened 0 :=
  ⟨Dialog.coherent_create settings, Dialog.stamped_create settings⟩

theorem Opened.after {opened : Nat} {desk : Desk σ} (h : desk.Opened opened) (op : Operation) :
    (desk.after op).Opened (opened + op.openings) := by
  have ht : Transition desk.wallClock desk.dialog op (desk.dialog.perform desk.wallClock op) :=
    perform_transition h.coherent op
  constructor
  · rw [after_dialog]
    exact ht.coherent h.coherent
  · rw [after_dialog]
    exact ht.stamped h.stamped

theorem Opened.move {opened : Nat} {desk : Desk σ} (h : desk.Opened opened) (m : Move) :
    (desk.move remote m).Opened (opened + m.openings) := by
  cases m with
  | operate op => exact h.after op
  | handleNext | dismissNext | goOn | pass | settle | stopListening =>
    constructor
    · exact move_dialog (fun _ _ event h => (handle_transition event).coherent h) (by simp)
        h.coherent
    · exact move_dialog (P := Dialog.Stamped opened)
        (fun _ _ event h => (handle_transition event).stamped h) (by simp) h.stamped

/-! ## Tokens are fresh -/

theorem returned_token {opened : Nat} {desk : Desk σ} (h : desk.Opened opened) (m : Move) :
    (desk.returned m).filterMap Returned.token? =
      (List.range' (opened + 1) m.openings).map SessionToken.nth := by
  cases m with
  | operate op =>
    cases op with
    | openOn source =>
      have hlast := (h.after (.openOn source)).stamped.last
      simp [returned, Returned.token?, hlast, Move.openings, Operation.openings]
    | deliver | setFilter | setNaming | fetch | retry | cancel => rfl
  | handleNext | goOn | settle | dismissNext | pass | stopListening => rfl

theorem tokensOf_eq {opened : Nat} {desk : Desk σ} (h : desk.Opened opened) (ms : List Move) :
    desk.tokensOf remote ms =
      (List.range' (opened + 1) (openingsOf ms)).map SessionToken.nth := by
  induction ms generalizing desk opened with
  | nil => rfl
  | cons m ms ih =>
    have hrest : tokensOf remote (desk.move remote m) ms = _ := ih (h.move m)
    have hshift : opened + m.openings + 1 = opened + 1 + m.openings := by omega
    rw [tokensOf] at hrest
    rw [tokensOf, results, List.filterMap_append, returned_token h m, hrest, ← List.map_append,
      hshift, List.range'_append_1, openingsOf_cons]

/-- The tokens of fewer than `2 ^ 64` sessions differ from each other and from the first. -/
theorem nodup_tokens {count : Nat} (h : count < UInt64.size) :
    ((List.range' 1 count).map SessionToken.nth).Nodup ∧
      SessionToken.initial ∉ (List.range' 1 count).map SessionToken.nth := by
  constructor
  · refine List.pairwise_map.mpr ((List.nodup_range' 1).imp_of_mem ?_)
    intro i j hi hj hne he
    rw [List.mem_range'_1] at hi hj
    exact hne (SessionToken.nth_injective (by omega) (by omega) he)
  · intro hmem
    obtain ⟨i, hi, he⟩ := List.mem_map.mp hmem
    rw [List.mem_range'_1] at hi
    have hzero : i = 0 :=
      SessionToken.nth_injective (by omega) (by decide) (he.trans SessionToken.nth_zero.symm)
    omega

/-! ## Strays have no influence -/

/-- No view heeds a stray. -/
theorem Opened.stray_unheeded {opened count : Nat} {desk : Desk σ} (h : desk.Opened opened)
    (hle : opened ≤ count) (hcount : count < UInt64.size) {event : Event}
    (hs : event.Stray ((List.range' 1 count).map SessionToken.nth) opened desk.dialog) :
    ¬ desk.dialog.Heeds event := by
  rintro ⟨s, hsession, htoken, -⟩
  obtain ⟨hnth, hpos⟩ := h.stamped.session s hsession
  rcases hs with hclosed | ⟨i, hi, hne⟩ | hunknown
  · rw [h.coherent.mpr hclosed] at hsession
    cases hsession
  · rw [List.getElem?_map, Option.map_eq_some_iff] at hi
    obtain ⟨j, hj, he⟩ := hi
    obtain ⟨hlt, rfl⟩ := List.getElem?_eq_some_iff.mp hj
    rw [List.length_range'] at hlt
    rw [List.getElem_range', ← htoken, hnth] at he
    have hsame := SessionToken.nth_injective (by omega) (by omega) he
    omega
  · apply hunknown
    rw [← htoken, hnth]
    exact List.mem_map_of_mem (List.mem_range'_1.mpr ⟨hpos, by omega⟩)

theorem results_settles {steps : List Move} (hsteps : ∀ m ∈ steps, m.Settles) (desk : Desk σ)
    (ms : List Move) :
    desk.results remote (steps ++ ms) = (desk.moves remote steps).results remote ms := by
  induction steps generalizing desk with
  | nil => rfl
  | cons m steps ih =>
    obtain ⟨hm, hrest⟩ := List.forall_mem_cons.mp hsteps
    have hreturned : desk.returned m = [] := by
      cases m with
      | handleNext | goOn => rfl
      | operate | dismissNext | pass | settle | stopListening => exact hm.elim
    rw [List.cons_append, results, hreturned, List.nil_append, ih hrest]
    rfl

theorem openingsOf_settles {steps : List Move} (hsteps : ∀ m ∈ steps, m.Settles) :
    openingsOf steps = 0 := by
  induction steps with
  | nil => rfl
  | cons m steps ih =>
    obtain ⟨hm, hrest⟩ := List.forall_mem_cons.mp hsteps
    have hnone : m.openings = 0 := by
      cases m with
      | handleNext | goOn => rfl
      | operate | dismissNext | pass | settle | stopListening => exact hm.elim
    rw [openingsOf_cons, hnone, ih hrest]

theorem Thins.equal {opened count : Nat} {desk : Desk σ} {ms kept : List Move}
    (ht : Thins remote ((List.range' 1 count).map SessionToken.nth) opened desk ms kept)
    (h : desk.Opened opened) (hle : opened + openingsOf ms ≤ count) (hcount : count < UInt64.size) :
    desk.results remote kept = desk.results remote ms ∧
      desk.moves remote kept = desk.moves remote ms := by
  induction ht with
  | nil => exact ⟨rfl, rfl⟩
  | @keep opened desk m ms kept _ ih =>
    rw [openingsOf_cons] at hle
    obtain ⟨hresults, hmoves⟩ := ih (h.move m) (by omega)
    exact ⟨by rw [results, results, hresults], hmoves⟩
  | @drop opened desk event ms kept hs _ ih =>
    rw [openingsOf_cons] at hle
    have hsame : desk.after (.deliver event) = desk :=
      desk.after_unheeded (h.stray_unheeded (by omega) hcount hs)
    rw [hsame] at ih
    obtain ⟨hresults, hmoves⟩ := ih h (by omega)
    constructor
    · change _ = [] ++ (desk.after (.deliver event)).results remote ms
      rw [hsame, hresults, List.nil_append]
    · change _ = (desk.after (.deliver event)).moves remote ms
      rw [hsame, hmoves]
  | @dismiss opened desk event rest ms kept hq hs _ ih =>
    rw [openingsOf_cons] at hle
    have hsame : desk.handleNext = desk.dismissNext := by
      have hunheeded : ¬ ({ desk with queue := rest } : Desk σ).dialog.Heeds event :=
        h.stray_unheeded (by omega) hcount hs
      rw [handleNext, hq]
      simp only [after_unheeded _ hunheeded, dismissNext, hq, List.tail_cons]
    have hnext : (desk.move remote .handleNext).Opened opened := h.move .handleNext
    obtain ⟨hresults, hmoves⟩ := ih hnext (by omega)
    rw [hsame] at hresults hmoves
    constructor
    · change [] ++ desk.dismissNext.results remote kept = [] ++ desk.handleNext.results remote ms
      rw [hsame, hresults]
    · change desk.dismissNext.moves remote kept = desk.handleNext.moves remote ms
      rw [hsame, hmoves]
  | @unfold opened desk steps ms kept hsteps he _ ih =>
    rw [openingsOf_cons] at hle
    rw [openingsOf_append, openingsOf_settles hsteps, results_settles hsteps] at ih
    obtain ⟨hresults, hmoves⟩ := ih h (by omega)
    constructor
    · change _ = [] ++ (desk.settle remote).results remote ms
      rw [he, hresults, List.nil_append]
    · change _ = (desk.settle remote).moves remote ms
      rw [he, hmoves, moves, moves, moves, List.foldl_append]

/-- The tokens of a run that opens fewer than `2 ^ 64` sessions differ from each other and from
the token before the first. Whatever strays are left out of the run, every operation gives back
what it gave back, and the desk at the end is the same: its view, its work under way, its queue,
its calls to the host and its calls to the server. -/
theorem strays_have_no_influence (remote : Remote σ) (settings : DialogSettings)
    (wallClock : Int64) (s : σ) (ms : List Move) (h : openingsOf ms < UInt64.size) :
    ((create settings wallClock s).tokensOf remote ms).Nodup ∧
      SessionToken.initial ∉ (create settings wallClock s).tokensOf remote ms ∧
      ∀ kept, Thins remote ((create settings wallClock s).tokensOf remote ms) 0
          (create settings wallClock s) ms kept →
        (create settings wallClock s).results remote kept =
            (create settings wallClock s).results remote ms ∧
          (create settings wallClock s).moves remote kept =
            (create settings wallClock s).moves remote ms := by
  have hopened : (create settings wallClock s).Opened 0 := opened_create settings wallClock s
  have htokens : (create settings wallClock s).tokensOf remote ms =
      (List.range' 1 (openingsOf ms)).map SessionToken.nth := by
    simpa using tokensOf_eq hopened ms
  rw [htokens]
  obtain ⟨hnodup, hinitial⟩ := nodup_tokens h
  refine ⟨hnodup, hinitial, fun kept ht => ?_⟩
  exact ht.equal hopened (by omega) h

/-- A run in which the first of two sessions reports after the second was opened. -/
def lateReport : List Move :=
  [.operate (.openOn default), .operate (.openOn default),
    .operate (.deliver ⟨.nth 1, .loaded (.ok [])⟩)]

theorem late_report_has_no_influence :
    openingsOf lateReport < UInt64.size ∧
      ((create ⟨25, 300, 0⟩ 0 true).tokensOf (.wavering []) lateReport).Nodup ∧
      SessionToken.initial ∉ (create ⟨25, 300, 0⟩ 0 true).tokensOf (.wavering []) lateReport ∧
      (create ⟨25, 300, 0⟩ 0 true).results (.wavering []) (lateReport.take 2) =
        (create ⟨25, 300, 0⟩ 0 true).results (.wavering []) lateReport ∧
      (create ⟨25, 300, 0⟩ 0 true).moves (.wavering []) (lateReport.take 2) =
        (create ⟨25, 300, 0⟩ 0 true).moves (.wavering []) lateReport := by
  have hfew : openingsOf lateReport < UInt64.size := by decide
  obtain ⟨hnodup, hinitial, hequal⟩ :=
    strays_have_no_influence (.wavering []) ⟨25, 300, 0⟩ 0 true lateReport hfew
  refine ⟨hfew, hnodup, hinitial, hequal (lateReport.take 2) ?_⟩
  exact .keep _ (.keep _ (.drop (.inr (.inl ⟨0, by rfl, by decide⟩)) (.nil _ _)))

end Desk

end FeedDesk
