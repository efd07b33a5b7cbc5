import FeedDesk.Proofs.Console.Printing
import FeedDesk.Proofs.Remote.Answers
import FeedDesk.Proofs.Remote.Wording
import FeedDesk.Url.PlainDomain

/-!
# The standard error of a command

Alerts, progress and signs are printed without the control characters that a server may have put
into them. The error that ends a command is printed as it is. It has one text from outside at most:
the text of a fault that the server reported, the path of the settings, or an address. So control
characters get to the terminal exactly by way of this text; if it has none, the standard error
consists of printable lines.
-/
namespace FeedDesk.Console

open Text

def quotedByAnswer? {α : Type} : Answer α → Option String
  | .error e => e.quoted?
  | .ok _ => none

section
variable {σ : Type} (transport : Transport σ)

/-- The text that the error of a command quotes: that of a fault of the server, or the address of
the feed that is tried out. -/
def quotedByCommand? [Url.DomainMapping] (client : Client) (link : Link σ) : Command → Option String
  | .feeds | .view .. => quotedByAnswer? (client.loadConfig transport link).answer
  | .fetchAll => quotedByAnswer? (client.fetchFeeds transport link).answer
  | .preview feed _ =>
    match Address.feed feed.url with
    | .ok _ => none
    | .error _ => some feed.url

/-- The text from outside that the error at the end of a run quotes: the path of the settings, the
address of the server, or what the error of the command quotes. -/
def quotedText? [Url.DomainMapping] (env : Environment) (invocation : Invocation)
    (link : Link σ) : Option String :=
  match settingsFor env invocation with
  | .error _ => (configPath env invocation.config).toOption
  | .ok config =>
    match clientFor config with
    | .error _ => some config.serverUrl
    | .ok client => quotedByCommand? transport client link invocation.command

end

def causeLines : List String → List String
  | [] => []
  | [cause] => ["", "Caused by:", "    " ++ cause]
  | causes => "" :: "Caused by:" ::
    causes.zipIdx.map fun (cause, number) => alignRight 5 (Nat.repr number) ++ ": " ++ cause

def Failure.report (f : Failure) : List String := ("Error: " ++ f.message) :: causeLines f.causes

/-- What a run prints on the standard error, if the error that ends it quotes a text. -/
structure ErrorOutput (quoted : Option String) (run : Run) : Prop where
  messages : ∀ text ∈ run.lines.filterMap Line.err?, Printable text
  clean_iff : (∀ failure, run.failure = some failure → failure.Clean) ↔
    ∀ text, quoted = some text → Printable text
  lines : (∀ text, quoted = some text → Printable text) →
    stderrText run.allLines =
        joinLines (run.lines.filterMap Line.err? ++ run.failure.toList.flatMap Failure.report) ∧
      ∀ line ∈ run.lines.filterMap Line.err? ++ run.failure.toList.flatMap Failure.report,
        Printable line

/-! ## The lines of an error -/

theorem indentLines_of_printable {text : String} (h : Printable text) (indent : String) :
    indentLines indent text = text := by
  have hkept : ∀ c ∈ text.toList, (if c = '\n' then '\n' :: indent.toList else [c]) = [c] := by
    intro c hc
    rw [if_neg]
    rintro rfl
    exact absurd (h '\n' hc) (by decide)
  rw [indentLines, List.flatMap_congr hkept, List.flatMap_singleton', String.ofList_toList]

theorem joinLines_numbered {causes : List (String × Nat)}
    (h : ∀ cause ∈ causes, Printable cause.1) :
    String.join (causes.map fun (text, number) => numberedCause number text) ++ "\n" =
      "\n" ++ joinLines (causes.map fun (text, number) =>
        alignRight 5 (Nat.repr number) ++ ": " ++ text) := by
  induction causes with
  | nil => rfl
  | cons cause causes ih =>
    obtain ⟨hcause, hcauses⟩ := List.forall_mem_cons.mp h
    rw [List.map_cons, String.join_cons, String.append_assoc, ih hcauses, List.map_cons,
      joinLines_cons]
    simp only [numberedCause, indentLines_of_printable hcause, String.append_assoc]

theorem causesText_eq {causes : List String} (h : ∀ cause ∈ causes, Printable cause) :
    causesText causes ++ "\n" = "\n" ++ joinLines (causeLines causes) := by
  match causes, h with
  | [], _ => rfl
  | [cause], h =>
    have hcause : Printable cause := h cause List.mem_cons_self
    have hhead : "\n\nCaused by:\n    " =
        "\n" ++ ("" ++ "\n" ++ ("Caused by:" ++ "\n" ++ "    ")) := rfl
    have hend : joinLines [] = "" := rfl
    change "\n\nCaused by:\n    " ++ indentLines "    " cause ++ "\n" =
      "\n" ++ joinLines ["", "Caused by:", "    " ++ cause]
    rw [indentLines_of_printable hcause, joinLines_cons, joinLines_cons, joinLines_cons, hhead,
      hend, String.append_empty]
    simp only [String.append_assoc]
  | first :: second :: rest, h =>
    have hnumbered : ∀ cause ∈ (first :: second :: rest).zipIdx, Printable cause.1 :=
      fun cause hcause => h _ (List.fst_mem_of_mem_zipIdx hcause)
    have hhead : "\n\nCaused by:" ++ "\n" = "\n" ++ ("" ++ "\n" ++ ("Caused by:" ++ "\n")) := rfl
    change "\n\nCaused by:" ++ String.join (List.map _ (first :: second :: rest).zipIdx) ++ "\n" =
      "\n" ++ joinLines ("" :: "Caused by:" :: List.map _ (first :: second :: rest).zipIdx)
    rw [String.append_assoc, joinLines_numbered hnumbered, joinLines_cons, joinLines_cons,
      ← String.append_assoc, hhead]
    simp only [String.append_assoc]

theorem Failure.text_report {f : Failure} (h : f.Clean) :
    f.text ++ "\n" = joinLines f.report := by
  rw [Failure.text, report, joinLines_cons, String.append_assoc, causesText_eq h.2,
    ← String.append_assoc]

theorem Failure.printable_report {f : Failure} (h : f.Clean) :
    ∀ line ∈ f.report, Printable line := by
  have hcauses : ∀ line ∈ causeLines f.causes, Printable line := by
    match f.causes, h.2 with
    | [], _ => exact List.forall_mem_nil _
    | [cause], h =>
      have hblank : Printable "    " ∧ Printable "" ∧ Printable "Caused by:" := by decide
      simpa [causeLines, hblank] using h
    | first :: second :: rest, h =>
      have hwords : Printable "Caused by:" ∧ Printable "" ∧ Printable ": " := by decide
      refine List.forall_mem_cons.mpr ⟨hwords.2.1, List.forall_mem_cons.mpr ⟨hwords.1, ?_⟩⟩
      refine List.forall_mem_map.mpr fun cause hcause => ?_
      have hcause : Printable cause.1 := h _ (List.fst_mem_of_mem_zipIdx hcause)
      simp [hwords, hcause]
  have hword : Printable "Error: " := by decide
  exact List.forall_mem_cons.mpr ⟨printable_append.mpr ⟨hword, h.1⟩, hcauses⟩

/-! ## Ends of runs -/

theorem ErrorOutput.of_clean_iff {quoted : Option String} {run : Run}
    (hmessages : ∀ text ∈ run.lines.filterMap Line.err?, Printable text)
    (hclean : (∀ failure, run.failure = some failure → failure.Clean) ↔
      ∀ text, quoted = some text → Printable text) : ErrorOutput quoted run := by
  refine ⟨hmessages, hclean, fun hquoted => ?_⟩
  rw [stderrText_eq, Run.allLines, List.filterMap_append]
  cases hf : run.failure with
  | none =>
    refine ⟨rfl, ?_⟩
    simpa using hmessages
  | some failure =>
    have hfailure : failure.Clean := hclean.mpr hquoted failure hf
    have hreport : joinLines [failure.text] = joinLines failure.report := by
      rw [← failure.text_report hfailure, joinLines_cons]
      exact String.append_empty
    have hlines : [failure].flatMap Failure.report = failure.report := List.append_nil _
    change joinLines (_ ++ [failure.text]) = joinLines (_ ++ [failure].flatMap Failure.report) ∧
      ∀ line ∈ _ ++ [failure].flatMap Failure.report, Printable line
    rw [hlines]
    constructor
    · rw [joinLines_append, joinLines_append, hreport]
    · exact List.forall_mem_append.mpr ⟨hmessages, failure.printable_report hfailure⟩

theorem ErrorOutput.of_failure {quoted : Option String} {failure : Failure}
    (h : failure.Clean ↔ ∀ text, quoted = some text → Printable text) :
    ErrorOutput quoted ⟨[], some failure⟩ :=
  .of_clean_iff (List.forall_mem_nil _) (by simpa using h)

theorem clean_ofRemote_iff {context : String} {e : RemoteError} (hcontext : Printable context)
    (he : e.EndsCall) : (Failure.ofRemote context e).Clean ↔
      ∀ text, e.quoted? = some text → Printable text := by
  have hcauses : (∀ cause ∈ e.message :: e.causes, Printable cause) ↔ Printable e.message := by
    rw [List.forall_mem_cons]
    exact and_iff_left he.printable_causes
  rw [← he.printable_message_iff, ← hcauses]
  exact and_iff_right hcontext

/-- An error that has some text between its own words is clean if the text is. -/
theorem clean_quoting_iff {before text behind : String} {causes : List String}
    (hbefore : Printable before) (hbehind : Printable behind)
    (hcauses : ∀ cause ∈ causes, Printable cause) :
    Failure.Clean ⟨before ++ text ++ behind, causes⟩ ↔
      ∀ quoted, some text = some quoted → Printable quoted := by
  have hmessage : Printable (before ++ text ++ behind) ↔ Printable text := by
    simp [hbefore, hbehind]
  simp only [Option.some.injEq, forall_eq']
  exact (and_iff_left hcauses).trans hmessage

/-! ## Commands -/

section
variable {σ : Type} (transport : Transport σ) (client : Client) (settings : DialogSettings)
  (now : Int64) (link : Link σ)

theorem errorOutput_clientView (source : FeedSource) (options : ViewOptions) :
    ErrorOutput none (runClientView transport client settings now source options link).1 := by
  have hrun : (runClientView transport client settings now source options link).1 =
      (runView (clientRemote transport client) source options (.create settings now link)).1 := by
    unfold runClientView
    rfl
  obtain ⟨hmessages, hclean⟩ :=
    runView_printable (clientRemote transport client) source options settings now link
  rw [hrun]
  exact .of_clean_iff hmessages (iff_of_true hclean (by simp))

theorem errorOutput_unread {e : RemoteError}
    (h : (client.loadConfig transport link).answer = .error e) :
    ErrorOutput (quotedByAnswer? (client.loadConfig transport link).answer)
      ⟨[], some (.ofRemote "Failed to read server options" e)⟩ := by
  rw [h]
  exact .of_failure (clean_ofRemote_iff (by decide) (Client.endsCall_run h))

theorem errorOutput_feeds [Url.DomainMapping] :
    ErrorOutput (quotedByCommand? transport client link .feeds)
      (runCommand transport client settings now .feeds link).1 := by
  unfold runCommand readOptions
  dsimp only
  cases h : (client.loadConfig transport link).answer with
  | error e => exact errorOutput_unread transport client link h
  | ok entries =>
    rw [quotedByCommand?, h]
    refine .of_clean_iff ?_ (by simp [quotedByAnswer?])
    simp [Line.err?]

theorem errorOutput_fetchAll [Url.DomainMapping] :
    ErrorOutput (quotedByCommand? transport client link .fetchAll)
      (runCommand transport client settings now .fetchAll link).1 := by
  unfold runCommand quotedByCommand?
  dsimp only
  cases h : (client.fetchFeeds transport link).answer with
  | error e =>
    refine .of_clean_iff ?_ ?_
    · have halert : HostCall.UsuallyTitled
          (.alert "Error" ("Could not fetch feeds: " ++ e.message)) := rfl
      simpa [refreshCalls] using printable_err_hostLines halert
    · simpa [quotedByAnswer?] using clean_ofRemote_iff (by decide) (Client.endsCall_run h)
  | ok =>
    refine .of_clean_iff ?_ (by simp [quotedByAnswer?])
    simp [refreshCalls, hostLines, Line.err?]

theorem errorOutput_view [Url.DomainMapping] (id : UInt32) (options : ViewOptions) :
    ErrorOutput (quotedByCommand? transport client link (.view id options))
      (runCommand transport client settings now (.view id options) link).1 := by
  unfold runCommand readOptions
  dsimp only
  cases h : (client.loadConfig transport link).answer with
  | error e => exact errorOutput_unread transport client link h
  | ok entries =>
    rw [quotedByCommand?, h]
    dsimp only
    split
    · exact errorOutput_clientView ..
    · have hwords : Printable "Feed " ∧ Printable " is not configured" := by decide
      refine .of_failure (iff_of_true ⟨?_, List.forall_mem_nil _⟩ (by simp [quotedByAnswer?]))
      simp [hwords]

theorem errorOutput_preview [Url.DomainMapping] (feed : PreviewFeed) (options : ViewOptions) :
    ErrorOutput (quotedByCommand? transport client link (.preview feed options))
      (runCommand transport client settings now (.preview feed options) link).1 := by
  unfold runCommand quotedByCommand?
  dsimp only
  cases h : Address.feed feed.url with
  | ok url => exact errorOutput_clientView ..
  | error e =>
    have hcauses := List.forall_mem_cons.mpr (Address.printable_feed h)
    exact .of_failure (clean_quoting_iff (by decide) (by decide) hcauses)

theorem errorOutput_command [Url.DomainMapping] (command : Command) :
    ErrorOutput (quotedByCommand? transport client link command)
      (runCommand transport client settings now command link).1 := by
  cases command with
  | feeds => exact errorOutput_feeds transport client settings now link
  | fetchAll => exact errorOutput_fetchAll transport client settings now link
  | view id options => exact errorOutput_view transport client settings now link id options
  | preview feed options =>
    exact errorOutput_preview transport client settings now link feed options

end

/-! ## Whole runs -/

theorem errorOutput_settings {env : Environment} {invocation : Invocation} {failure : Failure}
    (h : settingsFor env invocation = .error failure) :
    ErrorOutput (configPath env invocation.config).toOption ⟨[], some failure⟩ := by
  unfold settingsFor at h
  cases hpath : configPath env invocation.config with
  | error unset =>
    rw [hpath] at h
    obtain rfl := Except.error.inj h
    have hunset : unset = ⟨"HOME environment variable not set",
        ["environment variable not found"]⟩ := by
      unfold configPath at hpath
      split at hpath
      · cases hpath
      · cases hpath
      · exact (Except.error.inj hpath).symm
    refine .of_failure (iff_of_true ?_ (by simp [Except.toOption]))
    rw [hunset]
    exact ⟨by decide, List.forall_mem_singleton.mpr (by decide)⟩
  | ok path =>
    rw [hpath] at h
    dsimp only [bind, Except.bind] at h
    split at h
    next e _ =>
      obtain rfl := Except.error.inj h
      have hempty : "Failed to load config from " ++ path =
          "Failed to load config from " ++ path ++ "" := String.append_empty.symm
      have hcauses := List.forall_mem_cons.mpr e.printable_wording
      refine .of_failure ?_
      rw [hempty]
      exact clean_quoting_iff (by decide) (by decide) hcauses
    next => cases h

theorem errorOutput_client [Url.DomainMapping] {config : Config} {failure : Failure}
    (h : clientFor config = .error failure) :
    ErrorOutput (some config.serverUrl) ⟨[], some failure⟩ := by
  unfold clientFor at h
  split at h
  · cases h
  next e he =>
    obtain rfl := Except.error.inj h
    obtain ⟨refused, hrefused, rfl⟩ : ∃ refused,
        Address.server config.serverUrl = .error refused ∧ e = .badServer refused := by
      unfold Client.ofConfig at he
      split at he
      next refused hrefused => exact ⟨refused, hrefused, (Except.error.inj he).symm⟩
      next => cases he
    have hcause := List.forall_mem_cons.mpr (Address.printable_server hrefused)
    have hmessage : Printable (RemoteError.badServer refused).message :=
      printable_append.mpr ⟨by decide, hcause _ List.mem_cons_self⟩
    exact .of_failure (clean_quoting_iff (by decide) (by decide)
      (List.forall_mem_cons.mpr ⟨hmessage, hcause⟩))

theorem runInvocation_errorOutput [Url.DomainMapping] {σ : Type} (transport : Transport σ)
    (env : Environment) (invocation : Invocation) (link : Link σ) :
    ErrorOutput (quotedText? transport env invocation link)
      (runInvocation transport env invocation link).1 := by
  unfold quotedText? runInvocation
  cases hsettings : settingsFor env invocation with
  | error failure => exact errorOutput_settings hsettings
  | ok config =>
    dsimp only
    cases hclient : clientFor config with
    | error failure => exact errorOutput_client hclient
    | ok client => exact errorOutput_command transport client _ _ link invocation.command

/-! ## Faults on the standard error -/

def faultDocument (text : String) : Json :=
  .ofMembers [("error", .ofMembers [("message", .ofString text)])]

theorem readAnswer_faultDocument {α : Type} (read : Json → Option α) (text : String) :
    readAnswer read (faultDocument text).render = .error (.fault 0 text) := by
  have hlegible : (faultDocument text).Legible := by
    apply Json.legible_ofMembers
    intro member hmember
    obtain rfl := List.mem_singleton.mp hmember
    apply Json.legible_ofMembers
    intro member hmember
    obtain rfl := List.mem_singleton.mp hmember
    exact Json.legible_ofString text
  rw [readAnswer, Json.parse?_render hlegible]
  rfl

def answering (document : String) : Transport Unit where
  deliver _ s := (⟨.response ⟨200, none, [document.toUTF8], true⟩, 0⟩, s)

/-- A call fails with the fault that the document of the server reports, at the first attempt. -/
theorem answer_answering {α : Type} {document text : String} {code : Int64} {call : RemoteCall}
    {read : Json → Option α} (hsize : document.toUTF8.size ≤ bodyLimit)
    (hread : readAnswer read document = .error (.fault code text)) (client : Client)
    (link : Link Unit) :
    (client.run (answering document) call read link).answer = .error (.fault code text) := by
  rw [client.answer_run (answering document) call read link (k := 0) (Nat.zero_le _)
    (fun j hj => absurd hj (Nat.not_lt_zero j)) (responseText_complete hsize), hread]

def bareEnvironment : Environment := ⟨some "/", none, fun _ => .missing, 0⟩

def clearScreen : String := "\x1b[2J"

/-- A server clears the screen of an operator who asks for the list of feeds. -/
theorem fault_clears_screen : '\x1b' ∈
    (stderrText (runInvocation (answering (faultDocument clearScreen).render) bareEnvironment
      { command := .feeds } { server := () }).1.allLines).toList := by
  have hsettings : settingsFor bareEnvironment { command := .feeds } = .ok {} := rfl
  have haccepted : (clientFor {}).isOk = true := by decide +kernel
  have hsize : (faultDocument clearScreen).render.toUTF8.size ≤ bodyLimit := by decide +kernel
  have hread : readAnswer ConfigEntry.listOfJson? (faultDocument clearScreen).render =
      .error (.fault 0 clearScreen) := readAnswer_faultDocument _ clearScreen
  have hstderr : '\x1b' ∈ (stderrText [.err (Failure.text ⟨"Failed to read server options",
      ["Server error 0: " ++ clearScreen]⟩)]).toList := by decide +kernel
  revert hsize hread
  generalize (faultDocument clearScreen).render = document
  intro hsize hread
  unfold runInvocation
  rw [hsettings]
  obtain ⟨client, hclient⟩ : ∃ client, clientFor {} = .ok client := by
    revert haccepted
    cases clientFor {} with
    | error failure => exact fun h => nomatch h
    | ok client => exact fun _ => ⟨client, rfl⟩
  have hanswer : (client.loadConfig (answering document) { server := () }).answer =
      .error (.fault 0 clearScreen) := answer_answering hsize hread client _
  simp only [hclient, runCommand, readOptions, hanswer]
  exact hstderr

end FeedDesk.Console
