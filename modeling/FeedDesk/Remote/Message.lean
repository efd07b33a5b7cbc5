import FeedDesk.Number.Decimal
import FeedDesk.Remote.Exchange
import FeedDesk.Text.Ascii
import FeedDesk.Text.Blank

/-!
# Messages

Requests and responses as the bytes of HTTP/1.1 messages: a head of lines, an empty line and a
body. The head of a response announces the length of the body, or says that the body comes in
chunks, each behind its length; without either, the body ends with the connection.
-/
namespace FeedDesk

def lineEnd : String := "\r\n"

namespace HttpRequest

/-- The lines of the head of a request. The connection is to be used once. -/
def headLines (r : HttpRequest) : List String :=
  [r.method ++ " " ++ r.url.target ++ " HTTP/1.1",
    "Host: " ++ r.url.host.text ++ r.url.portText,
    "Content-Type: " ++ r.contentType]
  ++ (r.authorization.map ("Authorization: " ++ ·)).toList
  ++ ["Accept: */*", "Content-Length: " ++ Nat.repr r.body.utf8ByteSize, "Connection: close"]

def bytes (r : HttpRequest) : ByteArray :=
  (String.join ((r.headLines ++ [""]).map (· ++ lineEnd)) ++ r.body).toUTF8

end HttpRequest

/-! ## Heads of responses -/

/-- How the end of a body is found. -/
inductive BodyEnd where
  | sized (length : Nat)
  | chunked
  | closing
  deriving DecidableEq, Repr

/-- What the head of a response says, and the number of bytes up to the end of its empty line. -/
structure ResponseHead where
  status : Nat
  bodyEnd : BodyEnd
  size : Nat
  deriving DecidableEq, Repr

/-- Bytes as characters, each byte as the character of its value. -/
def charsOf (bytes : ByteArray) : List Char :=
  bytes.toList.map fun b => Char.ofNat b.toNat

namespace ResponseHead

def limit : Nat := 64 * 1024

def beforeEmptyLine? : List Char → Option (List Char)
  | '\r' :: '\n' :: '\r' :: '\n' :: _ => some []
  | c :: cs => (beforeEmptyLine? cs).map (c :: ·)
  | [] => none

/-- The text of the head that a message begins with, once it has come. -/
def text? (bytes : ByteArray) : Option (List Char) :=
  beforeEmptyLine? (charsOf (bytes.extract 0 limit))

def status? (line : String) : Option Nat :=
  match line.splitOn " " with
  | version :: code :: _ =>
    if "HTTP/1.".toList.isPrefixOf version.toList && code.length == 3 then
      Number.readNat? code.toList
    else none
  | _ => none

/-- The value of the first field of a name. The case of the name does not count. -/
def field? (name : String) (lines : List String) : Option String :=
  lines.findSome? fun line =>
    let cs := line.toList
    if Text.eqIgnoreCase (String.ofList (cs.takeWhile (· != ':'))) name then
      some (Text.trim (String.ofList ((cs.dropWhile (· != ':')).drop 1)))
    else none

def bodyEndOf (fields : List String) : BodyEnd :=
  if (field? "Transfer-Encoding" fields).any (Text.eqIgnoreCase · "chunked") then .chunked
  else
    match (field? "Content-Length" fields).bind fun text => Number.readNat? text.toList with
    | some length => .sized length
    | none => .closing

def ofText? (text : List Char) : Option ResponseHead :=
  match (String.ofList text).splitOn lineEnd with
  | [] => none
  | first :: fields =>
    (status? first).map fun status =>
      ⟨status, bodyEndOf fields, text.length + 2 * lineEnd.length⟩

end ResponseHead

/-! ## Bodies in chunks -/

namespace Chunked

def lineLimit : Nat := 1024

/-- The length in the line before a chunk, up to a semicolon. -/
def length? (line : List Char) : Option Nat :=
  match Text.trimBy Text.isBlank (line.takeWhile (· != ';')) with
  | [] => none
  | digits => Number.readHex? digits

/-- The chunks from a place on, as far as they have come, and whether the last one has. There are
fewer chunks than bytes, which bounds the number of steps. -/
def chunksFrom (bytes : ByteArray) : Nat → Nat → List ByteArray × Bool
  | 0, _ => ([], false)
  | steps + 1, start =>
    let near := charsOf (bytes.extract start (start + lineLimit))
    let line := near.takeWhile (· != '\n')
    if line.length = near.length then ([], false)
    else
      match length? line with
      | none => ([], false)
      | some 0 => ([], true)
      | some n =>
        let first := start + line.length + 1
        let chunk := bytes.extract first (first + n)
        if chunk.size < n then ([chunk], false)
        else
          let (chunks, complete) := chunksFrom bytes steps (first + n + lineEnd.length)
          (chunk :: chunks, complete)

def endsInEmptyLine (bytes : ByteArray) : Bool :=
  (bytes.extract (bytes.size - 4) bytes.size).toList == "\r\n\r\n".toUTF8.toList

end Chunked

/-! ## Responses -/

namespace ResponseHead

/-- The response of a message with this head, as far as the message has come. -/
def response (head : ResponseHead) (closed : Bool) (bytes : ByteArray) : HttpResponse :=
  match head.bodyEnd with
  | .sized n =>
    let body := bytes.extract head.size (head.size + n)
    ⟨head.status, some n, [body], decide (body.size = n)⟩
  | .chunked =>
    let (chunks, complete) := Chunked.chunksFrom bytes bytes.size head.size
    ⟨head.status, none, chunks, complete⟩
  | .closing => ⟨head.status, none, [bytes.extract head.size bytes.size], closed⟩

/-- Whether the rest of a message with this head does not count: the call has failed by now, or
the body is there. -/
def isSettled (head : ResponseHead) (bytes : ByteArray) : Bool :=
  !isSuccess head.status ||
    match head.bodyEnd with
    | .sized n => bodyLimit < n || head.size + n ≤ bytes.size
    | .chunked =>
      (Chunked.endsInEmptyLine bytes || head.size + bodyLimit < bytes.size) &&
        let r := head.response false bytes
        r.complete || bodyLimit < r.chunks.foldr (fun chunk n => chunk.size + n) 0
    | .closing => head.size + bodyLimit < bytes.size

end ResponseHead

end FeedDesk
