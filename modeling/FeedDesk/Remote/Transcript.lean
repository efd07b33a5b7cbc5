import FeedDesk.Remote.Exchange

/-!
# Transcripts

A transcript holds the deliveries of a conversation that are known. A program that talks to a
transcript runs as it would with the server for as long as they last. Then the transcript keeps
the request that it has no delivery for, and what the program does from there on has no meaning:
once the request has been delivered the program is run again on the longer transcript.
-/
namespace FeedDesk

/-- The deliveries not used yet, the milliseconds since the last one, and the first request that
there is no delivery for. -/
structure Transcript where
  ahead : List Delivery
  pause : Nat := 0
  wanted : Option HttpRequest := none

namespace Transcript

def deliver (request : HttpRequest) (t : Transcript) : Delivery × Transcript :=
  match t.wanted, t.ahead with
  | none, delivery :: ahead => (delivery, ⟨ahead, 0, none⟩)
  | none, [] => (⟨.unreachable, 0⟩, { t with wanted := some request })
  | some _, _ => (⟨.unreachable, 0⟩, t)

/-- Lets time pass up to the request that there is no delivery for. -/
def wait (milliseconds : Nat) (t : Transcript) : Transcript :=
  match t.wanted with
  | none => { t with pause := t.pause + milliseconds }
  | some _ => t

def transport : Transport Transcript := ⟨deliver, wait⟩

end Transcript

end FeedDesk
