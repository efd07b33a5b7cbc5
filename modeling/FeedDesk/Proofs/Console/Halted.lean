import FeedDesk.Proofs.Console.Printing
import FeedDesk.Proofs.Dialog.Transition
import FeedDesk.Proofs.Dialog.Run
import FeedDesk.Proofs.Number.Digits

/-!
# Halted batches on a terminal

The view reports a halted batch on two lines: why it halted, and how many jobs were not tried. A
terminal takes the line break out with the other control characters, so the number is printed
right behind the reason. The two can be told apart only if the reason does not end in a digit.
-/
namespace FeedDesk

open Text

namespace Text

@[simp] theorem stripControl_append (a b : String) :
    stripControl (a ++ b) = stripControl a ++ stripControl b := by
  simp [stripControl, String.ofList_append]

theorem stripControl_of_printable {s : String} (h : Printable s) : stripControl s = s := by
  have hkept : s.toList.filter (!isUnprintable ·) = s.toList :=
    List.filter_eq_self.mpr fun c hc => by simpa using h c hc
  rw [stripControl, hkept, String.ofList_toList]

/-- Two ways to cut a text: one of the cuts is the earlier one. -/
theorem append_eq_append_iff {a b c d : String} :
    a ++ b = c ++ d ↔
      (∃ between, a = c ++ between ∧ d = between ++ b) ∨
        ∃ between, c = a ++ between ∧ b = between ++ d := by
  constructor
  · intro h
    have hchars : a.toList ++ b.toList = c.toList ++ d.toList := by
      simpa using congrArg String.toList h
    rcases List.append_eq_append_iff.mp hchars with ⟨between, hc, hb⟩ | ⟨between, ha, hd⟩
    · refine .inr ⟨.ofList between, ?_, ?_⟩
      · simp [← String.toList_inj, hc]
      · simp [← String.toList_inj, hb]
    · refine .inl ⟨.ofList between, ?_, ?_⟩
      · simp [← String.toList_inj, ha]
      · simp [← String.toList_inj, hd]
  · rintro (⟨between, rfl, rfl⟩ | ⟨between, rfl, rfl⟩) <;> simp only [String.append_assoc]

theorem natRepr_inj {m n : Nat} : Nat.repr m = Nat.repr n ↔ m = n := by
  rw [← String.toList_inj, Nat.toList_repr, Nat.toList_repr, Number.toDigits_inj]

end Text

namespace BatchFailure

def unsent (f : BatchFailure) : String :=
  Nat.repr f.remaining.length ++ " more item(s) were not sent"

/-- What a terminal prints on the standard error when a batch halts. -/
def printed (f : BatchFailure) : String :=
  Console.stderrText (Console.hostLines (.alert "Error" f.report))

/-- The digits at the end of a printed reason are the first digits of another batch's count. -/
def EndsInCountOf (f g : BatchFailure) : Prop :=
  ∃ digits, stripControl f.message = stripControl g.message ++ digits ∧
    Nat.repr g.remaining.length = digits ++ Nat.repr f.remaining.length

/-- A printed reason that no digit ends. -/
def Delimited (f : BatchFailure) : Prop :=
  ∀ c ∈ (stripControl f.message).toList.getLast?, c.isDigit = false

variable {f g : BatchFailure}

theorem printable_unsent (f : BatchFailure) : Printable f.unsent := by
  have hwords : Printable " more item(s) were not sent" := by decide
  simp [unsent, hwords]

/-- The line break between the reason and the count is not printed. -/
theorem stripControl_report (hf : f.remaining ≠ []) :
    stripControl f.report = stripControl f.message ++ f.unsent := by
  have hbreak : stripControl "\n" = "" := by decide
  have hreport : f.report = f.message ++ "\n" ++ f.unsent := by
    rw [report, if_neg (by simpa using hf), unsent, ← String.append_assoc]
  rw [hreport, stripControl_append, stripControl_append, hbreak, String.append_empty,
    stripControl_of_printable f.printable_unsent]

theorem printed_eq (hf : f.remaining ≠ []) :
    f.printed = "Error: " ++ (stripControl f.message ++ f.unsent) ++ "\n" := by
  rw [← stripControl_report hf, printed, Console.stderrText_eq]
  have htitle : "Error: " = "Error" ++ ": " := rfl
  simp [Console.hostLines, Console.Line.err?, Console.joinLines, htitle]

/-! ## Reasons and counts that run together -/

theorem printed_inj (hf : f.remaining ≠ []) (hg : g.remaining ≠ []) :
    f.printed = g.printed ↔
      stripControl f.message ++ Nat.repr f.remaining.length =
        stripControl g.message ++ Nat.repr g.remaining.length := by
  rw [printed_eq hf, printed_eq hg]
  simp only [← String.toList_inj, unsent, String.toList_append]
  simp only [List.append_assoc, List.append_cancel_left_eq]
  simp only [← List.append_assoc, List.append_cancel_right_eq]

/-- Two halted batches are printed alike exactly if the digits at the end of the reason of one are
the first digits of the count of the other, if there are any. -/
theorem printed_eq_iff (hf : f.remaining ≠ []) (hg : g.remaining ≠ []) :
    f.printed = g.printed ↔ f.EndsInCountOf g ∨ g.EndsInCountOf f := by
  rw [printed_inj hf hg, append_eq_append_iff]
  rfl

/-- A reason that no digit ends is no part of a count. -/
theorem Delimited.remaining_eq (hf : f.Delimited) (h : f.EndsInCountOf g) :
    f.remaining.length = g.remaining.length := by
  obtain ⟨digits, hreason, hcount⟩ := h
  obtain rfl : digits = "" := by
    by_contra hne
    have hnil : digits.toList ≠ [] := by simpa using hne
    have hdigit : (digits.toList.getLast hnil).isDigit = true := by
      apply Nat.isDigit_of_mem_toDigits (b := 10) (n := g.remaining.length) (by decide) (by decide)
      rw [← Nat.toList_repr, hcount, String.toList_append]
      exact List.mem_append_left _ (List.getLast_mem hnil)
    have hend : (stripControl f.message).toList.getLast? = some (digits.toList.getLast hnil) := by
      rw [hreason, String.toList_append, List.getLast?_append, List.getLast?_eq_some_getLast hnil]
      rfl
    simp [hf _ hend] at hdigit
  simpa [natRepr_inj, eq_comm] using hcount

/-- The same reason is never printed with different counts. -/
theorem EndsInCountOf.remaining_eq (h : f.EndsInCountOf g)
    (hreason : stripControl f.message = stripControl g.message) :
    f.remaining.length = g.remaining.length := by
  obtain ⟨digits, hmessage, hcount⟩ := h
  obtain rfl : digits = "" := by
    have hsame : (stripControl g.message).toList =
        (stripControl g.message).toList ++ digits.toList := by
      rw [← String.toList_append, ← hmessage, hreason]
    exact String.toList_eq_nil_iff.mp (List.self_eq_append_right.mp hsame)
  simpa [natRepr_inj, eq_comm] using hcount

end BatchFailure

/-! ## The alert of a view -/

section
variable {d : Dialog} {s : Session} {now : Int64}

theorem Dialog.handle_halted (hp : d.phase = .dispatching) (hs : d.session = some s)
    (f : BatchFailure) :
    (d.handle now ⟨s.token, .finished s.batch (.error f)⟩).effects =
      s.signOff ++ [.host (.controls true), .host (.alert "Error" f.report)] := by
  simp only [handle, hs, onFinished, hp, ne_eq, not_true_eq_false, or_self, if_false,
    hideTransmit_of_session hs]
  rfl

/-- A view whose batch halts before its last jobs prints one line: the reason and, right behind it,
the number of jobs that were not sent. Two such batches are printed alike exactly if the digits at
the end of one's reason are the first digits of the other's count, so the counts are the same if
the reasons are, or if neither ends in a digit. -/
theorem Dialog.halted_batch_on_one_line (hp : d.phase = .dispatching) (hs : d.session = some s)
    {f : BatchFailure} (hf : f.remaining ≠ []) :
    Console.stderrText
        ((hostCallsOf (d.handle now ⟨s.token, .finished s.batch (.error f)⟩).effects).flatMap
          Console.hostLines) = f.printed ∧
      f.printed = "Error: " ++ (stripControl f.message ++ f.unsent) ++ "\n" ∧
      Printable (stripControl f.message ++ f.unsent) ∧
      ∀ g : BatchFailure, g.remaining ≠ [] →
        (f.printed = g.printed ↔ f.EndsInCountOf g ∨ g.EndsInCountOf f) ∧
        (f.printed = g.printed →
          stripControl f.message = stripControl g.message ∨ f.Delimited ∧ g.Delimited →
          f.remaining.length = g.remaining.length) := by
  have hsign : (hostCallsOf s.signOff).flatMap Console.hostLines = [] := by
    unfold Session.signOff
    split <;> rfl
  refine ⟨?_, BatchFailure.printed_eq hf, by simp [f.printable_unsent], fun g hg => ?_⟩
  · rw [handle_halted hp hs, hostCallsOf_append, List.flatMap_append, hsign, List.nil_append]
    simp [hostCallsOf, Effect.hostCall?, BatchFailure.printed, Console.hostLines]
  · refine ⟨BatchFailure.printed_eq_iff hf hg, fun halike hreasons => ?_⟩
    rcases (BatchFailure.printed_eq_iff hf hg).mp halike with h | h
    · rcases hreasons with hsame | ⟨hend, -⟩
      · exact h.remaining_eq hsame
      · exact hend.remaining_eq h
    · rcases hreasons with hsame | ⟨-, hend⟩
      · exact (h.remaining_eq hsame.symm).symm
      · exact (hend.remaining_eq h).symm

def faultedBatch (text : String) (unsent : Nat) : BatchFailure where
  failed := ⟨"u", "a.nzb", "a"⟩
  error := .fault 3 text
  remaining := List.replicate unsent ⟨"v", "b.nzb", "b"⟩
  completed := 0

def sendingDialog : Dialog :=
  (Dialog.create ⟨100, 500, 0⟩).within .dispatching
    { Session.fresh ⟨1⟩ (.saved ⟨1, "u", "Feed", "", ""⟩) with batch := 1 }

theorem halted_batch_on_one_line_of_fault :
    (faultedBatch "busy" 2).remaining ≠ [] ∧ (faultedBatch "busy" 2).printed =
      "Error: Could not add a.nzb to queue: Server error 3: busy2 more item(s) were not sent\n" :=
  have hf : (faultedBatch "busy" 2).remaining ≠ [] := by decide
  ⟨hf, (@Dialog.halted_batch_on_one_line sendingDialog _ 0 rfl rfl _ hf).2.1.trans (by decide)⟩

/-- A batch halted before two jobs and a batch halted before twelve are printed alike, and not on
two lines. -/
theorem halted_batches_printed_alike :
    (∀ text unsent defaults,
      (dispatch (fun _ (_ : Unit) => (.error (.fault 3 text), ())) defaults .absent
        ⟨⟨"u", "a.nzb", "a"⟩, List.replicate unsent ⟨"v", "b.nzb", "b"⟩⟩ ()).result =
          .error (faultedBatch text unsent)) ∧
    (faultedBatch "code 1" 2).remaining.length ≠ (faultedBatch "code " 12).remaining.length ∧
    (faultedBatch "code 1" 2).printed = (faultedBatch "code " 12).printed ∧
    (faultedBatch "code 1" 2).printed ≠
      "Error: " ++ stripControl (faultedBatch "code 1" 2).message ++ "\n" ++
        (faultedBatch "code 1" 2).unsent ++ "\n" := by
  refine ⟨fun _ _ _ => rfl, by decide, ?_, by decide⟩
  have hdigit : (faultedBatch "code 1" 2).EndsInCountOf (faultedBatch "code " 12) :=
    ⟨"1", by decide, by decide⟩
  exact (BatchFailure.printed_eq_iff (by decide) (by decide)).mpr (.inl hdigit)

end

end FeedDesk
