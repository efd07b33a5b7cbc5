import FeedDesk.Remote.Client
import Mathlib.Order.Bounds.Defs
import Mathlib.Tactic.Ring

/-!
# Calls that are attempted again

If the attempts of a call were made without end, each would have its outcome. A call that only reads
ends with the first outcome that is a result or an error that is not transient, or else with the
fourth one, and it pauses between its attempts and nowhere else, each time for twice as long.
-/
namespace FeedDesk

/-- Whether an answer ends a call that may be attempted again: a result, or an error that another
attempt would not mend. -/
def IsFinal {α : Type} (answer : Answer α) : Prop :=
  ∀ error, answer = .error error → error.isTransient = false

section
variable {α σ : Type} (attempt : σ → Answer α × σ) (wait : Nat → σ → σ)

/-- The state in front of each attempt, if they are made without end. -/
def stateBefore (pause : Nat) (s : σ) : Nat → σ
  | 0 => s
  | k + 1 => wait (pause * 2 ^ k) (attempt (stateBefore pause s k)).2

def outcomeOf (pause : Nat) (s : σ) (k : Nat) : Answer α :=
  (attempt (stateBefore attempt wait pause s k)).1

end

/-- What a client has a transport do. -/
inductive Errand where
  | carry (request : HttpRequest)
  | pause (milliseconds : Nat)

/-- The errands of a call up to an attempt, with the pauses between its requests. -/
def errandsUntil (request : Nat → HttpRequest) : Nat → List Errand
  | 0 => [.carry (request 0)]
  | k + 1 => errandsUntil request k ++ [.pause (250 * 2 ^ k), .carry (request (k + 1))]

section
variable {σ τ : Type}

def Transport.journaling (transport : Transport σ) : Transport (σ × List Errand) where
  deliver request s := ((transport.deliver request s.1).1, (transport.deliver request s.1).2,
    s.2 ++ [.carry request])
  wait milliseconds s := (transport.wait milliseconds s.1, s.2 ++ [.pause milliseconds])

/-- A transport on which deliveries come as listed, whatever is asked for. -/
def Transport.playing (deliveries : Nat → Delivery) : Transport Nat where
  deliver _ k := (deliveries k, k + 1)

def Link.map (see : σ → τ) (link : Link σ) : Link τ where
  server := see link.server
  nextId := link.nextId
  sent := link.sent
  clock := link.clock

namespace Client

variable {α : Type} (client : Client)

def linkBefore (transport : Transport σ) (call : RemoteCall) (read : Json → Option α)
    (link : Link σ) (k : Nat) : Link σ :=
  stateBefore (client.attempt transport call read) (pause transport) 250 link k

def outcome (transport : Transport σ) (call : RemoteCall) (read : Json → Option α)
    (link : Link σ) (k : Nat) : Answer α :=
  (client.attempt transport call read (client.linkBefore transport call read link k)).1

def requestOf (call : RemoteCall) (link : Link σ) (k : Nat) : HttpRequest :=
  client.request (link.nextId + .ofNat k) call

/-- A call that ends with its first final outcome, or with the fourth one: this is the outcome of
the attempt with `last` others before it. -/
structure EndsWith (call : RemoteCall) (read : Json → Option α)
    (run : (ρ : Type) → Transport ρ → Link ρ → CallRun α (Link ρ)) (transport : Transport σ)
    (link : Link σ) (last : Nat) : Prop where
  least : IsLeast {k | IsFinal (client.outcome transport call read link k) ∨ k = 3} last
  answer : (run σ transport link).answer = client.outcome transport call read link last
  pauses : (run σ transport link).pauses = (List.range last).map (250 * 2 ^ ·)
  sent : (run σ transport link).after.sent =
    link.sent ++ (List.range (last + 1)).map (client.requestOf call link)
  errands : (run _ transport.journaling (link.map (·, []))).after.server.2 =
    errandsUntil (client.requestOf call link) last

/-- How a call is attempted again. A journal of the errands makes no difference to it, and every
sequence of deliveries is met on some transport. -/
structure Retries (call : RemoteCall) (read : Json → Option α)
    (run : (ρ : Type) → Transport ρ → Link ρ → CallRun α (Link ρ)) (transport : Transport σ)
    (link : Link σ) : Prop where
  ends : ∃ last, client.EndsWith call read run transport link last
  unaltered :
    (run _ transport.journaling (link.map (·, []))).answer = (run σ transport link).answer ∧
      (run _ transport.journaling (link.map (·, []))).after.map Prod.fst =
        (run σ transport link).after
  met : ∀ deliveries k,
    client.outcome (.playing deliveries) call read (link.map fun _ => 0) k =
      (responseText (deliveries k).outcome).bind (readAnswer read)

end Client

end

/-! ## Attempts without end -/

section
variable {α σ : Type} {attempt : σ → Answer α × σ} {wait : Nat → σ → σ} {pause : Nat} {s : σ}

theorem exists_isLeast (p : Nat → Prop) (limit : Nat) :
    ∃ last, IsLeast {k | p k ∨ k = limit} last := by
  classical
  have h : ∃ k, p k ∨ k = limit := ⟨limit, .inr rfl⟩
  exact ⟨Nat.find h, Nat.find_spec h, fun k hk => Nat.find_min' h hk⟩

/-- The attempts after the first are those of a call that begins behind it. -/
theorem stateBefore_succ (k : Nat) : stateBefore attempt wait pause s (k + 1) =
    stateBefore attempt wait (2 * pause) (wait pause (attempt s).2) k := by
  induction k with
  | zero =>
    simp only [stateBefore, pow_zero, mul_one]
  | succ k ih =>
    rw [stateBefore, ih, stateBefore]
    congr 1
    ring

theorem outcomeOf_succ (k : Nat) : outcomeOf attempt wait pause s (k + 1) =
    outcomeOf attempt wait (2 * pause) (wait pause (attempt s).2) k := by
  rw [outcomeOf, stateBefore_succ, outcomeOf]

theorem pauses_succ (last : Nat) : (List.range (last + 1)).map (pause * 2 ^ ·) =
    pause :: (List.range last).map (2 * pause * 2 ^ ·) := by
  rw [List.range_succ_eq_map, List.map_cons, List.map_map, pow_zero, mul_one]
  congr 2
  funext k
  simp only [Function.comp_apply, pow_succ]
  ring

/-- The least position behind the first one is the least of the positions that are left. -/
theorem isLeast_succ {p : Nat → Prop} {limit last : Nat} (hfirst : ¬ p 0)
    (h : IsLeast {k | p k ∨ k = limit + 1} last) :
    ∃ rest, last = rest + 1 ∧ IsLeast {k | p (k + 1) ∨ k = limit} rest := by
  obtain ⟨hlast, hleast⟩ := h
  cases last with
  | zero =>
    rcases hlast with hp | hzero
    · exact absurd hp hfirst
    · cases hzero
  | succ rest =>
    refine ⟨rest, rfl, hlast.imp_right Nat.succ.inj, fun k hk => ?_⟩
    exact Nat.le_of_succ_le_succ (hleast (hk.imp_right (congrArg (· + 1))))

theorem attemptAgain_of_final {retries : Nat} (h : IsFinal (attempt s).1) :
    attemptAgain attempt wait retries pause s = ⟨(attempt s).1, [], (attempt s).2⟩ := by
  cases retries with
  | zero => rfl
  | succ retries =>
    rw [attemptAgain]
    rcases hs : attempt s with ⟨error | value, after⟩
    · rw [hs] at h
      simp only [h error rfl, Bool.false_eq_true, if_false]
    · rfl

theorem attemptAgain_of_transient {retries : Nat} (h : ¬ IsFinal (attempt s).1) :
    attemptAgain attempt wait (retries + 1) pause s =
      let run := attemptAgain attempt wait retries (2 * pause) (wait pause (attempt s).2)
      { run with pauses := pause :: run.pauses } := by
  rw [attemptAgain]
  rcases hs : attempt s with ⟨error | value, after⟩
  · have htransient : error.isTransient = true := by
      by_contra hlasting
      refine h fun error' herror => ?_
      rw [hs] at herror
      cases herror
      exact Bool.not_eq_true _ ▸ hlasting
    simp only [htransient, if_true]
  · refine absurd (fun error herror => ?_) h
    rw [hs] at herror
    cases herror

/-- A call ends with its first final outcome, or with the next one when no retries are left. -/
theorem attemptAgain_eq {retries last : Nat}
    (h : IsLeast {k | IsFinal (outcomeOf attempt wait pause s k) ∨ k = retries} last) :
    attemptAgain attempt wait retries pause s =
      ⟨outcomeOf attempt wait pause s last, (List.range last).map (pause * 2 ^ ·),
        (attempt (stateBefore attempt wait pause s last)).2⟩ := by
  induction retries generalizing pause s last with
  | zero =>
    obtain rfl : last = 0 := Nat.le_zero.mp (h.2 (.inr rfl))
    rfl
  | succ retries ih =>
    -- the call is over, or goes on as a call with one retry less and twice the pause
    by_cases hfirst : IsFinal (outcomeOf attempt wait pause s 0)
    · obtain rfl : last = 0 := Nat.le_zero.mp (h.2 (.inl hfirst))
      exact attemptAgain_of_final hfirst
    · obtain ⟨rest, rfl, hrest⟩ := isLeast_succ hfirst h
      simp only [outcomeOf_succ] at hrest
      rw [attemptAgain_of_transient (s := s) hfirst, ih hrest, outcomeOf_succ, stateBefore_succ,
        pauses_succ]

end

/-! ## Calls of a client -/

theorem RemoteError.isTransient_iff (error : RemoteError) : error.isTransient = true ↔
    error = .timeout ∨ error = .unreachable ∨
      ∃ status, 500 ≤ status ∧ error = .httpStatus status := by
  cases error <;> simp [isTransient]

namespace Client

section
variable {α σ : Type} (transport : Transport σ) (client : Client) (call : RemoteCall)
  (read : Json → Option α) (link : Link σ) (k : Nat)

theorem nextId_linkBefore :
    (client.linkBefore transport call read link k).nextId = link.nextId + .ofNat k := by
  induction k with
  | zero => exact (UInt64.add_zero _).symm
  | succ k ih =>
    change (client.linkBefore transport call read link k).nextId + 1 = _
    rw [ih, UInt64.ofNat_add, UInt64.add_assoc]
    rfl

theorem sent_attempt :
    (client.attempt transport call read (client.linkBefore transport call read link k)).2.sent =
      (client.linkBefore transport call read link k).sent ++ [client.requestOf call link k] := by
  rw [requestOf, ← nextId_linkBefore transport client call read]
  rfl

theorem sent_linkBefore :
    (client.linkBefore transport call read link k).sent =
      link.sent ++ (List.range k).map (client.requestOf call link) := by
  induction k with
  | zero => exact (List.append_nil _).symm
  | succ k ih =>
    rw [List.range_succ, List.map_append, ← List.append_assoc, ← ih]
    exact sent_attempt transport client call read link k

theorem linkBefore_journaling :
    (client.linkBefore transport.journaling call read (link.map (·, [])) k).map Prod.fst =
      client.linkBefore transport call read link k := by
  induction k with
  | zero => rfl
  | succ k ih =>
    change pause transport (250 * 2 ^ k) (client.attempt transport call read
      ((client.linkBefore transport.journaling call read (link.map (·, [])) k).map Prod.fst)).2 = _
    rw [ih]
    rfl

theorem outcome_journaling :
    client.outcome transport.journaling call read (link.map (·, [])) k =
      client.outcome transport call read link k := by
  change (client.attempt transport call read
    ((client.linkBefore transport.journaling call read (link.map (·, [])) k).map Prod.fst)).1 = _
  rw [linkBefore_journaling]
  rfl

theorem journal_attempt :
    (client.attempt transport.journaling call read
        (client.linkBefore transport.journaling call read (link.map (·, [])) k)).2.server.2 =
      errandsUntil (client.requestOf call link) k := by
  have hrequest : ∀ k, (client.attempt transport.journaling call read
        (client.linkBefore transport.journaling call read (link.map (·, [])) k)).2.server.2 =
      (client.linkBefore transport.journaling call read (link.map (·, [])) k).server.2 ++
        [.carry (client.requestOf call link k)] := by
    intro k
    have hnumber : (client.linkBefore transport.journaling call read (link.map (·, [])) k).nextId =
        link.nextId + .ofNat k := nextId_linkBefore transport.journaling client call read _ k
    rw [requestOf, ← hnumber]
    rfl
  rw [hrequest]
  induction k with
  | zero => rfl
  | succ k ih =>
    change (client.attempt transport.journaling call read
      (client.linkBefore transport.journaling call read (link.map (·, [])) k)).2.server.2 ++
        [.pause (250 * 2 ^ k)] ++ _ = _
    rw [hrequest, ih, List.append_assoc]
    rfl

/-- The attempts of a call meet the deliveries that a transport plays. -/
theorem outcome_playing (deliveries : Nat → Delivery) :
    client.outcome (.playing deliveries) call read (link.map fun _ => 0) k =
      (responseText (deliveries k).outcome).bind (readAnswer read) := by
  have hserver : ∀ k, (client.linkBefore (.playing deliveries) call read
      (link.map fun _ => 0) k).server = k := by
    intro k
    induction k with
    | zero => rfl
    | succ k ih => exact congrArg (· + 1) ih
  rw [outcome, attempt, hserver]
  rfl

/-- A call that may be repeated is attempted again after transient failures. -/
theorem retries_run {call : RemoteCall} (h : call.isRepeatable = true) :
    client.Retries call read (fun _ transport => client.run transport call read)
      transport link := by
  have hrun : ∀ {ρ : Type} {transport : Transport ρ} {link : Link ρ} {last : Nat},
      IsLeast {k | IsFinal (client.outcome transport call read link k) ∨ k = 3} last →
      client.run transport call read link =
        ⟨client.outcome transport call read link last, (List.range last).map (250 * 2 ^ ·),
          (client.attempt transport call read
            (client.linkBefore transport call read link last)).2⟩ := by
    intro ρ transport link last hlast
    rw [run, if_pos h]
    exact attemptAgain_eq hlast
  obtain ⟨last, hlast⟩ :=
    exists_isLeast (fun k => IsFinal (client.outcome transport call read link k)) 3
  have hjournal : IsLeast {k | IsFinal (client.outcome transport.journaling call read
      (link.map (·, [])) k) ∨ k = 3} last := by
    simpa only [outcome_journaling] using hlast
  constructor
  case ends =>
    have hsent : (client.attempt transport call read
          (client.linkBefore transport call read link last)).2.sent =
        link.sent ++ (List.range (last + 1)).map (client.requestOf call link) := by
      rw [sent_attempt, sent_linkBefore, List.range_succ, List.map_append, List.append_assoc]
      rfl
    refine ⟨last, ?_⟩
    constructor
    case least => exact hlast
    case answer | pauses => rw [hrun hlast]
    case sent => rw [hrun hlast, hsent]
    case errands => rw [hrun hjournal, journal_attempt]
  case unaltered =>
    rw [hrun hlast, hrun hjournal]
    refine ⟨outcome_journaling transport client call read link last, ?_⟩
    change (client.attempt transport call read
      ((client.linkBefore transport.journaling call read (link.map (·, [])) last).map
        Prod.fst)).2 = _
    rw [linkBefore_journaling]
  case met => exact fun deliveries k => outcome_playing client call read link k deliveries

/-- The calls that list items and the call for the options are attempted again after timeouts,
network errors and HTTP statuses from 500 on, three times at most. -/
theorem reads_retried :
    (∀ id, client.Retries (.viewFeed id) Item.listOfJson?
      (fun _ transport => client.listItems transport (.viewFeed id)) transport link) ∧
    (∀ name url filter, client.Retries (.previewFeed name url filter) Item.listOfJson?
      (fun _ transport => client.listItems transport (.previewFeed name url filter))
      transport link) ∧
    client.Retries .loadConfig ConfigEntry.listOfJson?
      (fun _ transport => client.loadConfig transport) transport link ∧
    ∀ error : RemoteError, error.isTransient = true ↔ error = .timeout ∨ error = .unreachable ∨
      ∃ status, 500 ≤ status ∧ error = .httpStatus status :=
  ⟨fun _ => retries_run transport client _ link rfl,
    fun _ _ _ => retries_run transport client _ link rfl,
    retries_run transport client _ link rfl, RemoteError.isTransient_iff⟩

end

end Client

end FeedDesk
