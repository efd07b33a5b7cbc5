import FeedDesk.Remote.Error

/-!
# Exchanges with the server

A call is sent as the body of a request and answered by the body of a response. A body comes in
chunks and is read up to a limit, so that no server can fill the memory.
-/
namespace FeedDesk

/-- A request, and the seconds that the head of its response may take. -/
structure HttpRequest where
  method : String := "POST"
  url : Url
  authorization : Option String
  contentType : String := "application/json"
  body : String
  timeout : Nat := 30
  deriving DecidableEq, Repr, Inhabited

/-- A response: its status, the length that it announces, its body, and whether the body came to
its end. -/
structure HttpResponse where
  status : Nat
  declared : Option Nat
  chunks : List ByteArray
  complete : Bool

inductive Exchange where
  | unreachable
  | silence
  | response (response : HttpResponse)

/-- What a request led to, and the milliseconds that it took. -/
structure Delivery where
  outcome : Exchange
  duration : Nat := 0

/-- The way to a server, which carries one request after another. Time passes on it also while
nothing is carried. -/
structure Transport (σ : Type) where
  deliver : HttpRequest → σ → Delivery × σ
  wait : Nat → σ → σ := fun _ s => s

def bodyLimit : Nat := 10 * 1024 * 1024

/-- Joins chunks behind the bytes already read, as long as the limit is kept. -/
def joinChunks (limit : Nat) (read : ByteArray) : List ByteArray → Answer ByteArray
  | [] => .ok read
  | chunk :: chunks =>
    if limit < read.size + chunk.size then .error .tooLarge
    else joinChunks limit (read ++ chunk) chunks

/-- The body of a response. One that is announced as too large is not read at all. -/
def readBody (limit : Nat) (r : HttpResponse) : Answer ByteArray :=
  if r.declared.any (limit < ·) then .error .tooLarge
  else
    match joinChunks limit .empty r.chunks with
    | .ok body => if r.complete then .ok body else .error .unreachable
    | .error e => .error e

def isSuccess (status : Nat) : Bool := 200 ≤ status && status < 300

/-- The text of a successful response. The body has to be a text as a whole, also in the members of
its document that nobody asks for. -/
def responseText : Exchange → Answer String
  | .unreachable => .error .unreachable
  | .silence => .error .timeout
  | .response r =>
    if !isSuccess r.status then .error (.httpStatus r.status)
    else
      match readBody bodyLimit r with
      | .error e => .error e
      | .ok body =>
        match String.fromUTF8? body with
        | some text => .ok text
        | none => .error .undecodable

end FeedDesk
