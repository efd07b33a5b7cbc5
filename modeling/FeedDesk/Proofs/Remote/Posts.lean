import FeedDesk.Remote.Client

/-!
# Posts

A post is a request that the transport carries, together with what it leads to. A transport can keep
a record of its posts, which makes no difference to the client. By this record a call that queues an
item is one post, whatever comes of it: such a call is not repeatable, so it is attempted once even
where its error would let another call be attempted again.
-/
namespace FeedDesk

/-- A request that was carried, and what it led to. -/
abbrev Post := HttpRequest × Exchange

section
variable {σ : Type}

def Transport.recording (transport : Transport σ) : Transport (σ × List Post) where
  deliver request s :=
    ((transport.deliver request s.1).1, (transport.deliver request s.1).2,
      s.2 ++ [(request, (transport.deliver request s.1).1.outcome)])
  wait milliseconds s := (transport.wait milliseconds s.1, s.2)

def Link.recorded (link : Link σ) : Link (σ × List Post) where
  server := (link.server, [])
  nextId := link.nextId
  sent := link.sent
  clock := link.clock

def Link.forget (link : Link (σ × List Post)) : Link σ where
  server := link.server.1
  nextId := link.nextId
  sent := link.sent
  clock := link.clock

def Exchange.acknowledgement (outcome : Exchange) : Answer Bool :=
  (responseText outcome).bind (readAnswer Json.asBool?)

namespace Client

variable (transport : Transport σ) (client : Client)

def queueing (request : AppendRequest) (link : Link σ) : Answer Bool × Link σ :=
  ((client.append transport request link).answer, (client.append transport request link).after)

/-- A call that queues an item is a single attempt, whatever comes of it. -/
theorem queueing_eq_attempt (request : AppendRequest) (link : Link σ) :
    client.queueing transport request link =
      client.attempt transport (.appendUrl request) Json.asBool? link := rfl

/-- A call that queues an item is one post, under the number of the link. -/
theorem exists_post (request : AppendRequest) (link : Link (σ × List Post)) :
    ∃ outcome, (client.queueing transport.recording request link).1 =
        Exchange.acknowledgement outcome ∧
      (client.queueing transport.recording request link).2.server.2 =
        link.server.2 ++ [(client.request link.nextId (.appendUrl request), outcome)] ∧
      (client.queueing transport.recording request link).2.nextId = link.nextId + 1 := by
  rw [queueing_eq_attempt]
  exact ⟨_, rfl, rfl, rfl⟩

/-- The record makes no difference to a call. -/
theorem queueing_forget (request : AppendRequest) (link : Link (σ × List Post)) :
    (client.queueing transport.recording request link).1 =
        (client.queueing transport request link.forget).1 ∧
      (client.queueing transport.recording request link).2.forget =
        (client.queueing transport request link.forget).2 :=
  ⟨rfl, rfl⟩

end Client

end

end FeedDesk
