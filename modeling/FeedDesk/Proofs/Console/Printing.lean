import FeedDesk.Proofs.Console.Showing
import FeedDesk.Proofs.Desk.Alerts
import FeedDesk.Proofs.Text.Printable

/-!
# What a terminal prints

Besides its table a terminal prints the messages among the calls to its host, and nothing else. On
the standard output these are notices. On the standard error they are printable, whatever the server
has put into them. And if a view ends with an error, then with one of its own making.
-/
namespace FeedDesk.Console

open Text

def Line.out? : Line → Option String
  | .out text => some text
  | .err _ => none

def Line.err? : Line → Option String
  | .out _ => none
  | .err text => some text

/-- An error that is printed as it was written, whatever it quotes. -/
def Failure.Clean (f : Failure) : Prop := Printable f.message ∧ ∀ cause ∈ f.causes, Printable cause

theorem stdoutText_eq (lines : List Line) :
    stdoutText lines = joinLines (lines.filterMap Line.out?) := rfl

theorem stderrText_eq (lines : List Line) :
    stderrText lines = joinLines (lines.filterMap Line.err?) := by
  unfold stderrText
  congr 2
  funext line
  cases line <;> rfl

/-! ## Lines -/

theorem joinLines_cons (line : String) (lines : List String) :
    joinLines (line :: lines) = line ++ "\n" ++ joinLines lines :=
  String.join_cons

theorem joinLines_append (a b : List String) :
    joinLines (a ++ b) = joinLines a ++ joinLines b := by
  rw [joinLines, List.map_append, String.join_append]
  rfl

/-- The output is its lines with the line ends between them, and behind the last. -/
theorem toList_joinLines (lines : List String) :
    (joinLines lines).toList = ['\n'].intercalate (lines.map String.toList ++ [[]]) := by
  induction lines with
  | nil => rfl
  | cons line lines ih =>
    have hend : "\n".toList = ['\n'] := rfl
    rw [joinLines_cons, String.toList_append, String.toList_append, ih, hend]
    cases lines with
    | nil => simp
    | cons next lines => simp

/-- No printable text adds a line or splits one. -/
theorem splitOn_joinLines {lines : List String} (h : ∀ line ∈ lines, Printable line) :
    (joinLines lines).toList.splitOn '\n' = lines.map String.toList ++ [[]] := by
  rw [toList_joinLines]
  apply List.splitOn_intercalate
  · intro cs hcs hbreak
    rcases List.mem_append.mp hcs with hcs | hcs
    · obtain ⟨line, hline, rfl⟩ := List.mem_map.mp hcs
      exact absurd (h line hline '\n' hbreak) (by decide)
    · rw [List.mem_singleton.mp hcs] at hbreak
      cases hbreak
  · simp

/-! ## Messages -/

def notice? : HostCall → Option Notice
  | .notify notice => some notice
  | _ => none

theorem out_flatMap_hostLines (calls : List HostCall) :
    (calls.flatMap hostLines).filterMap Line.out? = (calls.filterMap notice?).map Notice.text := by
  have once (call : HostCall) :
      (hostLines call).filterMap Line.out? = (notice? call).toList.map Notice.text := by
    cases call with
    | transmit visible => cases visible <;> rfl
    | _ => rfl
  induction calls with
  | nil => rfl
  | cons call calls ih =>
    rw [List.flatMap_cons, List.filterMap_append, ih, once, List.filterMap_cons]
    cases notice? call <;> rfl

theorem printable_notice (notice : Notice) : Printable notice.text := by
  have hwords : Printable " items added to queue" := by decide
  unfold Notice.text
  split
  · decide
  · decide
  · decide
  · simp [hwords]

/-- What the server has put into a message is printed without its control characters. -/
theorem printable_err_hostLines {call : HostCall} (h : call.UsuallyTitled) :
    ∀ text ∈ (hostLines call).filterMap Line.err?, Printable text := by
  cases call with
  | alert title message =>
    obtain rfl : title = "Error" := h
    have htitle : Printable "Error: " := by decide
    simp [hostLines, Line.err?, htitle]
  | transmit visible => cases visible <;> decide
  | progress done total =>
    have hsigns : Printable "[" ∧ Printable "/" ∧ Printable "]" := by decide
    simp [hostLines, Line.err?, hsigns]
  | _ => simp [hostLines, Line.err?]

/-! ## Views from the table to the end -/

section
variable {σ : Type} {remote : Remote σ} {P : Desk σ → List Line → Prop}

/-- What is kept by every operation at a terminal, and when it settles. -/
structure Keeps (remote : Remote σ) (P : Desk σ → List Line → Prop) : Prop where
  operated : ∀ (t : Terminal σ) (op : Operation), P t.desk t.lines →
    P (t.after op).desk (t.after op).lines
  settled : ∀ t : Terminal σ, P t.desk t.lines →
    P (t.settle remote).desk (t.settle remote).lines

/-- An end with something kept, and with a clean error if with any. -/
def EndsWith (P : Desk σ → List Line → Prop) (result : Run × Desk σ) : Prop :=
  P result.2 result.1.lines ∧ ∀ failure, result.1.failure = some failure → failure.Clean

theorem clean_dialogError (e : DialogError) : Failure.Clean ⟨e.message, []⟩ := by
  cases e with
  | notReady phase => cases phase <;> simp [Failure.Clean] <;> decide
  | emptySelection | nothingToRetry => simp [Failure.Clean]; decide

theorem clean_left : Failure.Clean ⟨"Not every selected item was added to the queue", []⟩ := by
  simp [Failure.Clean]
  decide

theorem clean_unloaded : Failure.Clean ⟨"Feed could not be loaded", []⟩ := by
  simp [Failure.Clean]
  decide

namespace Keeps

variable {t : Terminal σ}

theorem finish (hk : Keeps remote P) (h : P t.desk t.lines) {failure : Option Failure}
    (hf : ∀ f, failure = some f → f.Clean) : EndsWith P (t.finish failure) :=
  ⟨hk.operated t .cancel h, hf⟩

theorem sendAll (hk : Keeps remote P) (retries : Nat) {t : Terminal σ} (h : P t.desk t.lines) :
    EndsWith P (t.sendAll remote retries) := by
  induction retries generalizing t with
  | zero =>
    rw [Terminal.sendAll]
    split
    · exact hk.finish (hk.settled t h) (by simp)
    · exact hk.finish (hk.settled t h) (by simpa using clean_left)
  | succ retries ih =>
    have hretried := hk.operated _ .retry (hk.settled t h)
    rw [Terminal.sendAll]
    split
    · exact hk.finish (hk.settled t h) (by simp)
    · change P ((t.settle remote).perform .retry).2.desk
        ((t.settle remote).perform .retry).2.lines at hretried
      revert hretried
      rcases (t.settle remote).perform .retry with ⟨e | ⟨⟩, u⟩
      · intro hretried
        cases e with
        | nothingToRetry => exact hk.finish hretried (by simpa using clean_left)
        | notReady | emptySelection =>
          exact hk.finish hretried (by simpa using clean_dialogError _)
      · exact fun hretried => ih hretried

theorem send (hk : Keeps remote P) (retries : Nat) (h : P t.desk t.lines) :
    EndsWith P (t.send remote retries) := by
  have hfetched := hk.operated t (.fetch t.checked) h
  change P (t.perform (.fetch t.checked)).2.desk (t.perform (.fetch t.checked)).2.lines
    at hfetched
  unfold Terminal.send
  revert hfetched
  rcases t.perform (.fetch t.checked) with ⟨e | ⟨⟩, u⟩
  · intro hfetched
    cases e with
    | emptySelection => exact hk.finish hfetched (by simp)
    | notReady | nothingToRetry =>
      exact hk.finish hfetched (by simpa using clean_dialogError _)
  · exact fun hfetched => hk.sendAll retries hfetched

/-- What is kept is kept to the end of a view. -/
theorem proceed (hk : Keeps remote P) (options : ViewOptions) (h : P t.desk t.lines) :
    EndsWith P (t.proceed remote options) := by
  have hchecked : P (t.check options).desk (t.check options).lines := by
    unfold Terminal.check Terminal.checkVisible
    split
    · split <;> exact h
    · exact h
  unfold Terminal.proceed
  split
  · exact hk.send options.retries hchecked
  · exact hk.finish h (by simp)

theorem demand (hk : Keeps remote P) {op : Operation} {u : Terminal σ} (h : P t.desk t.lines)
    (hu : t.demand op = .ok u) : P u.desk u.lines := by
  have hdone : P (t.perform op).2.desk (t.perform op).2.lines := hk.operated t op h
  unfold Terminal.demand at hu
  revert hu hdone
  rcases t.perform op with ⟨e | ⟨⟩, v⟩
  · rintro ⟨⟩
  · rintro ⟨⟩
    exact id

theorem present (hk : Keeps remote P) {options : ViewOptions} {u : Terminal σ}
    (h : P t.desk t.lines) (hu : t.present options = .ok u) : P u.desk u.lines := by
  rw [Terminal.present_eq] at hu
  obtain ⟨v, hv, hu⟩ : ∃ v, (if options.filenames then t.demand (.setNaming .filename)
      else .ok t) = .ok v ∧ (if options.status = .all then .ok v
        else v.demand (.setFilter options.status)) = .ok u := by
    revert hu
    rcases (if options.filenames then t.demand (.setNaming .filename) else .ok t) with e | v
    · rintro ⟨⟩
    · exact fun hu => ⟨v, rfl, hu⟩
  have hnamed : P v.desk v.lines := by
    split at hv
    · exact hk.demand h hv
    · obtain rfl := Except.ok.inj hv
      exact h
  split at hu
  · obtain rfl := Except.ok.inj hu
    exact hnamed
  · exact hk.demand hnamed hu

/-- What is kept, also when a table is printed, is kept by a whole view. -/
theorem runView (hk : Keeps remote P)
    (printed : ∀ t : Terminal σ, P t.desk t.lines → P t.printTable.desk t.printTable.lines)
    (source : FeedSource) (options : ViewOptions) {desk : Desk σ} (h : P desk []) :
    EndsWith P (runView remote source options desk) := by
  have hloaded : P ((({ desk, checked := options.select } : Terminal σ).after
      (.openOn source)).settle remote).desk ((({ desk, checked := options.select } :
        Terminal σ).after (.openOn source)).settle remote).lines :=
    hk.settled _ (hk.operated _ (.openOn source) h)
  rw [runView_eq]
  unfold showView
  dsimp only
  generalize (Terminal.after _ (.openOn source)).settle remote = t at hloaded ⊢
  split
  next ended hended =>
    split at hended
    · obtain rfl := Except.error.inj hended
      exact hk.finish hloaded (by simpa using clean_unloaded)
    · revert hended
      cases t.present options with
      | error e =>
        rintro ⟨⟩
        exact hk.finish hloaded (by simpa using clean_dialogError e)
      | ok u => rintro ⟨⟩
  next u hshown =>
    split at hshown
    · cases hshown
    · revert hshown
      cases hu : t.present options with
      | error e => rintro ⟨⟩
      | ok u =>
        rintro ⟨⟩
        exact hk.proceed options (printed u (hk.present hloaded hu))

end Keeps

/-- A terminal prints nothing on the standard error that is not printable. -/
theorem keeps_printable (remote : Remote σ) : Keeps remote fun desk lines =>
    desk.AlertsUsually ∧ ∀ text ∈ lines.filterMap Line.err?, Printable text := by
  have moved {t : Terminal σ} {desk : Desk σ} (hdesk : desk.AlertsUsually)
      (h : ∀ text ∈ t.lines.filterMap Line.err?, Printable text) :
      ∀ text ∈ (t.moveTo desk).lines.filterMap Line.err?, Printable text := by
    rw [Terminal.moveTo, List.filterMap_append, List.forall_mem_append]
    refine ⟨h, fun text htext => ?_⟩
    rw [List.filterMap_flatMap, List.mem_flatMap] at htext
    obtain ⟨call, hcall, htext⟩ := htext
    exact printable_err_hostLines (hdesk.titles call (List.mem_of_mem_drop hcall)) text htext
  exact ⟨fun t op h => ⟨h.1.after op, moved (h.1.after op) h.2⟩,
    fun t h => ⟨h.1.settle, moved h.1.settle h.2⟩⟩

/-- A view of any feed, at any server, prints nothing on the standard error that is not printable,
and ends with a clean error, if with any. -/
theorem runView_printable (remote : Remote σ) (source : FeedSource) (options : ViewOptions)
    (settings : DialogSettings) (wallClock : Int64) (s : σ) :
    (∀ text ∈ (runView remote source options
      (.create settings wallClock s)).1.lines.filterMap Line.err?, Printable text) ∧
    ∀ failure, (runView remote source options
      (.create settings wallClock s)).1.failure = some failure → failure.Clean := by
  have hnew : (Desk.create settings wallClock s).AlertsUsually :=
    ⟨Dialog.coherent_create settings, by simp [Desk.create]⟩
  have printed (t : Terminal σ) (h : t.desk.AlertsUsually ∧
      ∀ text ∈ t.lines.filterMap Line.err?, Printable text) :
      t.printTable.desk.AlertsUsually ∧
        ∀ text ∈ t.printTable.lines.filterMap Line.err?, Printable text := by
    unfold Terminal.printTable
    split
    · refine ⟨h.1, ?_⟩
      simpa [Line.err?] using h.2
    · exact h
  obtain ⟨⟨-, hlines⟩, hclean⟩ :=
    (keeps_printable remote).runView printed source options ⟨hnew, by simp⟩
  exact ⟨hlines, hclean⟩

end

end FeedDesk.Console
