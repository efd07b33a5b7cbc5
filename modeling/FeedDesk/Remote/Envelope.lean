import FeedDesk.Json.Parser
import FeedDesk.Json.Record
import FeedDesk.Remote.Error

/-!
# Answers of the server

The server wraps what it answers in an envelope with a result and an error, either of which may be
missing or null. The envelope is read as a whole before it is looked at: a result that is not of
the expected kind makes it unreadable, whatever its error says.
-/
namespace FeedDesk

structure Fault where
  code : Int64 := 0
  message : String := ""
  deriving DecidableEq, Repr

def Fault.ofJson? (j : Json) : Option Fault := do
  let r ← Record.ofJson? ["code", "message"] j
  pure {
    code := ← r.withDefault "code" 0 Json.asInt64?
    message := ← r.withDefault "message" "" Json.asString? }

structure Envelope (α : Type) where
  result : Option α
  error : Option Fault

namespace Envelope

variable {α : Type}

def nullable (read : Json → Option α) : Json → Option (Option α)
  | .null => some none
  | v => (read v).map some

/-- The members of an envelope. In the array form both have to be given. -/
def members? : Json → Option Record
  | .array [result, error] => Record.ofJson? ["result", "error"] (.array [result, error])
  | .array _ => none
  | j => Record.ofJson? ["result", "error"] j

def ofJson? (read : Json → Option α) (j : Json) : Option (Envelope α) := do
  let r ← members? j
  pure {
    result := ← r.withDefault "result" none (nullable read)
    error := ← r.withDefault "error" none (nullable Fault.ofJson?) }

/-- What an envelope comes to. Without a result, null has to do as one. -/
def answer (read : Json → Option α) (e : Envelope α) : Answer α :=
  match e.error, e.result with
  | some fault, _ => .error (.fault fault.code fault.message)
  | none, some value => .ok value
  | none, none =>
    match read .null with
    | some value => .ok value
    | none => .error .undecodable

end Envelope

def readAnswer {α : Type} (read : Json → Option α) (text : String) : Answer α :=
  match (Json.parse? text).bind (Envelope.ofJson? read) with
  | some e => e.answer read
  | none => .error .undecodable

/-- How deep a result may nest that is taken without being looked at. -/
def resultDepth : Nat := 126

def anyResult? (j : Json) : Option Unit :=
  if j.isHoldable resultDepth then some () else none

end FeedDesk
