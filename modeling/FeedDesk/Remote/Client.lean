import FeedDesk.Config
import FeedDesk.Feed.Options
import FeedDesk.Remote.Call
import FeedDesk.Remote.Envelope
import FeedDesk.Remote.Exchange
import FeedDesk.Text.Base64
import FeedDesk.Url.Relative

/-!
# The client

The client makes calls. Every attempt is one request with a number of its own. A call that only
reads is attempted again after a transient failure, up to three times, and waits longer before
every attempt; a call that changes anything is attempted once.
-/
namespace FeedDesk

structure Client where
  endpoint : Url
  username : Option String
  password : Option String
  timeout : Nat
  deriving DecidableEq, Repr, Inhabited

/-- A client's side of its connection: the number of the next request, the requests sent, the
milliseconds that calls have taken, and the state of the server. -/
structure Link (σ : Type) where
  server : σ
  nextId : UInt64 := 1
  sent : List HttpRequest := []
  clock : Nat := 0

namespace Client

/-- The client that settings ask for. Calls go to an address below that of the server, whose path
counts as a directory whether or not it ends in a slash. -/
def ofConfig [Url.DomainMapping] (c : Config) : Answer Client :=
  match Address.server c.serverUrl with
  | .error e => .error (.badServer e)
  | .ok base =>
    .ok ⟨base.asDirectory.join "jsonrpc", c.username, c.password, max 1 c.requestTimeout.toNat⟩

/-- The description of a client, without the password. -/
def description (c : Client) : String :=
  Text.describe "JsonRpcClient" [
    ("endpoint", Text.quoted c.endpoint.text),
    ("username", Text.quotedOption c.username),
    ("password", Text.quotedOption (c.password.map fun _ => Text.redacted))]

/-- What a client shows to be let in. Without a user name it shows nothing. -/
def authorization (c : Client) : Option String :=
  c.username.map fun user =>
    "Basic " ++ String.ofList
      (Text.base64 (user ++ ":" ++ c.password.getD "").toUTF8.toList)

def request (c : Client) (id : UInt64) (call : RemoteCall) : HttpRequest where
  url := c.endpoint
  authorization := c.authorization
  body := (Json.ofMembers [("id", .ofNat id.toNat), ("method", .ofString call.method),
    ("params", .array call.parameters)]).render
  timeout := c.timeout

end Client

def retryLimit : Nat := 3

/-- The milliseconds before the second attempt. -/
def firstPause : Nat := 250

/-- The end of a call: its answer, the pauses between its attempts, and the state after it. -/
structure CallRun (α σ : Type) where
  answer : Answer α
  pauses : List Nat
  after : σ

/-- Attempts a call, and again after transient failures while retries are left. Each pause is
twice as long as the one before. -/
def attemptAgain {α σ : Type} (attempt : σ → Answer α × σ) (wait : Nat → σ → σ) :
    Nat → Nat → σ → CallRun α σ
  | 0, _, s => ⟨(attempt s).1, [], (attempt s).2⟩
  | retries + 1, pause, s =>
    match attempt s with
    | (.ok value, s) => ⟨.ok value, [], s⟩
    | (.error e, s) =>
      if e.isTransient then
        let run := attemptAgain attempt wait retries (2 * pause) (wait pause s)
        { run with pauses := pause :: run.pauses }
      else ⟨.error e, [], s⟩

namespace Client

section
variable {α σ : Type} (transport : Transport σ) (client : Client)

def attempt (call : RemoteCall) (read : Json → Option α) (link : Link σ) : Answer α × Link σ :=
  let request := client.request link.nextId call
  let (delivery, server) := transport.deliver request link.server
  ((responseText delivery.outcome).bind (readAnswer read),
    ⟨server, link.nextId + 1, link.sent ++ [request], link.clock + delivery.duration⟩)

def pause (milliseconds : Nat) (link : Link σ) : Link σ :=
  { link with
    server := transport.wait milliseconds link.server
    clock := link.clock + milliseconds }

def run (call : RemoteCall) (read : Json → Option α) (link : Link σ) : CallRun α (Link σ) :=
  attemptAgain (client.attempt transport call read) (pause transport)
    (if call.isRepeatable then retryLimit else 0) firstPause link

def fetchFeeds (link : Link σ) : CallRun Unit (Link σ) :=
  client.run transport .fetchFeeds anyResult? link

def listItems (call : RemoteCall) (link : Link σ) : CallRun (List Item) (Link σ) :=
  client.run transport call Item.listOfJson? link

def append (request : AppendRequest) (link : Link σ) : CallRun Bool (Link σ) :=
  client.run transport (.appendUrl request) Json.asBool? link

def loadConfig (link : Link σ) : CallRun (List ConfigEntry) (Link σ) :=
  client.run transport .loadConfig ConfigEntry.listOfJson? link

end

end Client

end FeedDesk
