import FeedDesk.Console.Arguments
import FeedDesk.Console.Report
import FeedDesk.Console.Table
import FeedDesk.Dialog.Desk
import FeedDesk.Host.Refresh
import FeedDesk.Remote.Client

/-!
# The program

What the commands do, as functions of the settings, the server's exchanges and the time. A command
that shows a view works on a desk and prints what the desk's host hears.
-/
namespace FeedDesk.Console

/-- A run of a command: what it printed, and the error that ended it, if one did. -/
structure Run where
  lines : List Line
  failure : Option Failure := none
  deriving DecidableEq, Repr, Inhabited

def Failure.ofRemote (context : String) (e : RemoteError) : Failure :=
  ⟨context, e.message :: e.causes⟩

/-! ## Views -/

/-- A view in a terminal: the desk, the addresses that are checked, and what is printed. -/
structure Terminal (σ : Type) where
  desk : Desk σ
  checked : List String
  lines : List Line := []

/-- A server as a client reaches it. A call takes the time of its attempts and of the pauses
between them. -/
def clientRemote {σ : Type} (transport : Transport σ) (client : Client) : Remote (Link σ) where
  load call link :=
    let run := client.listItems transport call link
    (⟨run.after.clock - link.clock, .answers run.answer⟩, run.after)
  append request link :=
    let run := client.append transport request link
    (⟨run.after.clock - link.clock, .answers run.answer⟩, run.after)

namespace Terminal

variable {σ : Type}

/-- A terminal after its desk has moved on; what the host heard meanwhile is printed. -/
def moveTo (t : Terminal σ) (desk : Desk σ) : Terminal σ :=
  let heard := desk.hostCalls.drop t.desk.hostCalls.length
  { t with desk, lines := t.lines ++ heard.flatMap hostLines }

def after (t : Terminal σ) (op : Operation) : Terminal σ := t.moveTo (t.desk.after op)

def perform (t : Terminal σ) (op : Operation) : Except DialogError Unit × Terminal σ :=
  let (outcome, desk) := t.desk.perform op
  (outcome, t.moveTo desk)

def settle (remote : Remote σ) (t : Terminal σ) : Terminal σ := t.moveTo (t.desk.settle remote)

def printTable (t : Terminal σ) : Terminal σ :=
  match t.desk.screen.table with
  | some shown =>
    let lines := tableLines t.desk.dialog.settings.pageSize t.desk.screen.title shown
    { t with lines := t.lines ++ lines.map .out }
  | none => t

/-- Checks the rows that are shown, and no others. -/
def checkVisible (t : Terminal σ) : Terminal σ :=
  match t.desk.screen.table with
  | some shown => { t with checked := shown.projection.ids }
  | none => t

def finish (t : Terminal σ) (failure : Option Failure) : Run × Desk σ :=
  let t := t.after .cancel
  (⟨t.lines, failure⟩, t.desk)

/-- Sends what is left of a batch, once it was started, as long as retries are left. -/
def sendAll (remote : Remote σ) : Nat → Terminal σ → Run × Desk σ
  | retries, t =>
    let t := t.settle remote
    if t.desk.dialog.phase = .closed then t.finish none
    else
      match retries with
      | 0 => t.finish (some ⟨"Not every selected item was added to the queue", []⟩)
      | retries + 1 =>
        match t.perform .retry with
        | (.ok (), t) => sendAll remote retries t
        | (.error .nothingToRetry, t) =>
          t.finish (some ⟨"Not every selected item was added to the queue", []⟩)
        | (.error e, t) => t.finish (some ⟨e.message, []⟩)

/-- Sends the checked items. Nothing checked is no error. -/
def send (remote : Remote σ) (retries : Nat) (t : Terminal σ) : Run × Desk σ :=
  match t.perform (.fetch t.checked) with
  | (.ok (), t) => t.sendAll remote retries
  | (.error .emptySelection, t) => t.finish none
  | (.error e, t) => t.finish (some ⟨e.message, []⟩)

def present (options : ViewOptions) (t : Terminal σ) : Except DialogError (Terminal σ) := do
  let t ←
    if options.filenames then
      match t.perform (.setNaming .filename) with
      | (.ok (), t) => pure t
      | (.error e, _) => throw e
    else pure t
  if options.status = .all then pure t
  else
    match t.perform (.setFilter options.status) with
    | (.ok (), t) => pure t
    | (.error e, _) => throw e

end Terminal

def runView {σ : Type} (remote : Remote σ) (source : FeedSource) (options : ViewOptions)
    (desk : Desk σ) : Run × Desk σ :=
  let t : Terminal σ := { desk, checked := options.select }
  let t := (t.after (.openOn source)).settle remote
  if t.desk.dialog.phase ≠ .ready then t.finish (some ⟨"Feed could not be loaded", []⟩)
  else
    match t.present options with
    | .error e => t.finish (some ⟨e.message, []⟩)
    | .ok t =>
      let t := t.printTable
      if !options.wantsFetch then t.finish none
      else (if options.selectVisible then t.checkVisible else t).send remote options.retries

/-! ## Commands -/

def feedLines (menu : List (UInt32 × String)) : List String :=
  if menu.isEmpty then ["No feeds configured"]
  else menu.map fun (id, label) =>
    Text.alignRight 3 (Nat.repr id.toNat) ++ "  " ++ Text.stripControl label

section
variable {σ : Type} (transport : Transport σ) (client : Client)

def readOptions (link : Link σ) : Except Failure Options × Link σ :=
  let run := client.loadConfig transport link
  match run.answer with
  | .ok entries => (.ok (.ofEntries entries), run.after)
  | .error e => (.error (.ofRemote "Failed to read server options" e), run.after)

def runClientView (settings : DialogSettings) (now : Int64) (source : FeedSource)
    (options : ViewOptions) (link : Link σ) : Run × Link σ :=
  let desk : Desk (Link σ) :=
    { dialog := .create settings, wallClock := now, remote := link }
  let (run, desk) := runView (clientRemote transport client) source options desk
  (run, desk.remote)

def runCommand [Url.DomainMapping] (settings : DialogSettings) (now : Int64) (command : Command)
    (link : Link σ) : Run × Link σ :=
  match command with
  | .feeds =>
    match readOptions transport client link with
    | (.ok options, link) => (⟨(feedLines (FeedDefinition.menu options)).map .out, none⟩, link)
    | (.error failure, link) => (⟨[], some failure⟩, link)
  | .fetchAll =>
    let run := client.fetchFeeds transport link
    let failure := match run.answer with
      | .ok () => none
      | .error e => some (Failure.ofRemote "Failed to start feed refresh" e)
    (⟨(refreshCalls run.answer).flatMap hostLines, failure⟩, run.after)
  | .view id options =>
    match readOptions transport client link with
    | (.error failure, link) => (⟨[], some failure⟩, link)
    | (.ok serverOptions, link) =>
      match (FeedDefinition.read? serverOptions id).filter FeedDefinition.hasUrl with
      | some feed =>
        runClientView transport client settings now (.saved feed) options link
      | none => (⟨[], some ⟨"Feed " ++ Nat.repr id.toNat ++ " is not configured", []⟩⟩, link)
  | .preview feed options =>
    match Address.feed feed.url with
    | .ok _ => runClientView transport client settings now (.preview feed) options link
    | .error e =>
      (⟨[], some ⟨"Invalid feed URL '" ++ feed.url ++ "'", e.message :: e.causes⟩⟩, link)

end

/-! ## The whole program -/

/-- What the program finds around it. -/
structure Environment where
  home : Option String
  password : Option String
  file : String → ConfigFile
  now : Int64

def joinPath (directory name : String) : String :=
  if directory = "" || directory.toList.getLast? = some '/' then directory ++ name
  else directory ++ "/" ++ name

def defaultConfigPath (home : String) : String :=
  joinPath home ".config/nzbfeed/config.toml"

def configPath (env : Environment) (given : Option String) : Except Failure String :=
  match given, env.home with
  | some path, _ => .ok path
  | none, some home => .ok (defaultConfigPath home)
  | none, none =>
    .error ⟨"HOME environment variable not set", ["environment variable not found"]⟩

def settingsFor (env : Environment) (invocation : Invocation) : Except Failure Config := do
  let path ← configPath env invocation.config
  match LoadedConfig.ofFile (env.file path) with
  | .error e => throw ⟨"Failed to load config from " ++ path, e.message :: e.causes⟩
  | .ok loaded =>
    let config := loaded.config.withPassword env.password
    pure { config with serverUrl := invocation.server.getD config.serverUrl }

def clientFor [Url.DomainMapping] (config : Config) : Except Failure Client :=
  match Client.ofConfig config with
  | .ok client => .ok client
  | .error e => .error (.ofRemote ("Cannot use server URL '" ++ config.serverUrl ++ "'") e)

def runInvocation [Url.DomainMapping] {σ : Type} (transport : Transport σ) (env : Environment)
    (invocation : Invocation) (link : Link σ) : Run × Link σ :=
  match settingsFor env invocation with
  | .error failure => (⟨[], some failure⟩, link)
  | .ok config =>
    match clientFor config with
    | .error failure => (⟨[], some failure⟩, link)
    | .ok client =>
      runCommand transport client config.dialogSettings env.now invocation.command link

namespace Run

def allLines (r : Run) : List Line := r.lines ++ r.failure.toList.map fun f => .err f.text

def exitCode (r : Run) : Nat := if r.failure.isSome then 1 else 0

end Run

end FeedDesk.Console
