import FeedDesk.Console.Program
import FeedDesk.Remote.Message
import FeedDesk.Remote.Transcript
import Std.Async.DNS
import Std.Async.TCP
import Std.Async.Timer
import Std.Time.DateTime.Timestamp

/-!
# The command line program

Reads the surroundings, runs the command line and prints what comes of it. Requests go over TCP
connections, one for each. There is no encryption: a server that asks for it is beyond reach.
-/
open FeedDesk FeedDesk.Console Std.Async

/-! ## Exchanges -/

/-- The name of a host as it is looked up: an IPv6 address has no brackets. -/
def lookupName (host : Url.Host) : String :=
  String.ofList (host.text.toList.filter fun c => c != '[' && c != ']')

/-- The address of a socket. -/
def socketAddress (port : UInt16) : Std.Net.IPAddr → Std.Net.SocketAddress
  | .v4 addr => .v4 { addr, port }
  | .v6 addr => .v6 { addr, port }

/-- Connects to the first address that takes the connection. -/
def connectAny : List Std.Net.SocketAddress → Async (Option TCP.Socket.Client)
  | [] => return none
  | address :: others => do
    let socket ← TCP.Socket.Client.mk
    try
      socket.connect address
      return some socket
    catch _ => connectAny others

def sendRequest (request : HttpRequest) : Async (Option TCP.Socket.Client) := do
  let port := request.url.port.getD 80
  let addresses ← DNS.getAddrInfo (lookupName request.url.host) (Nat.repr port)
  let socket ← connectAny (addresses.toList.map (socketAddress (UInt16.ofNat port)))
  if let some socket := socket then socket.send request.bytes
  return socket

/-- The most bytes that are taken from a connection at once. -/
def receiveSize : UInt64 := 64 * 1024

partial def receiveBody (socket : TCP.Socket.Client) (head : ResponseHead) (bytes : ByteArray) :
    Async Exchange := do
  if head.isSettled bytes then return .response (head.response false bytes)
  match ← socket.recv? receiveSize with
  | some more => receiveBody socket head (bytes ++ more)
  | none => return .response (head.response true bytes)

/-- Receives a response. Its head has to be there by the deadline. -/
partial def receive (socket : TCP.Socket.Client) (deadline : Nat) (bytes : ByteArray) :
    Async Exchange := do
  match ResponseHead.text? bytes with
  | some text =>
    match ResponseHead.ofText? text with
    | some head => receiveBody socket head bytes
    | none => return .unreachable
  | none =>
    if ResponseHead.limit ≤ bytes.size then return .unreachable
    let left := Std.Time.Millisecond.Offset.ofInt (deadline - (← IO.monoMsNow) : Nat)
    let received ← Selectable.one #[
      .case (socket.recvSelector receiveSize) fun more => return some more,
      .case (← Selector.sleep left) fun () => return none]
    match received with
    | none => return .silence
    | some none => return .unreachable
    | some (some more) => receive socket deadline (bytes ++ more)

def carry (request : HttpRequest) : Async Exchange := do
  if request.url.scheme != "http" then return .unreachable
  let start ← IO.monoMsNow
  let span := 1000 * request.timeout
  let connected ← Async.race (some <$> sendRequest request) do
    sleep (.ofInt span)
    return none
  match connected with
  | none => return .silence
  | some none => return .unreachable
  | some (some socket) => receive socket (start + span) .empty

/-- Delivers a request and takes the time. -/
def deliver (request : HttpRequest) : IO Delivery := do
  let start ← IO.monoMsNow
  let outcome ← try (carry request).block catch _ => pure .unreachable
  return ⟨outcome, (← IO.monoMsNow) - start⟩

/-! ## The run of a command line -/

def readConfigFile (path : String) : IO ConfigFile := do
  try
    return .found (← IO.FS.readBinFile path)
  catch
    | .noFileOrDirectory .. => return .missing
    | _ => return .unreadable

def printLine : Line → IO Unit
  | .out text => IO.println text
  | .err text => IO.eprintln text

/-- The path of the settings that a command line asks for, if it asks for a run at all. -/
def wantedPath (home : Option String) (arguments : List String) : Option String :=
  match readArguments arguments with
  | .run invocation => invocation.config <|> home.map defaultConfigPath
  | _ => none

/-- Runs a command line, delivering one request after another until none is left. -/
partial def converse (env : Environment) (arguments : List String) (known : List Delivery) :
    IO Ending := do
  let (ending, link) := runProgram Transcript.transport env arguments { server := ⟨known, 0, none⟩ }
  match link.server.wanted with
  | none => return ending
  | some request =>
    IO.sleep link.server.pause.toUInt32
    converse env arguments (known ++ [← deliver request])

def main (arguments : List String) : IO UInt32 := do
  let home ← IO.getEnv "HOME"
  let file ← match wantedPath home arguments with
    | some path => readConfigFile path
    | none => pure .missing
  let now ← Std.Time.Timestamp.now
  let env : Environment :=
    { home
      password := ← IO.getEnv "NZBFEED_PASSWORD"
      file := fun _ => file
      now := Int64.ofInt now.toSecondsSinceUnixEpoch.val }
  let ending ← converse env arguments []
  ending.lines.forM printLine
  return UInt32.ofNat ending.code
