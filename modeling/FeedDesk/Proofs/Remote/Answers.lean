import FeedDesk.Proofs.Feed.Wire
import FeedDesk.Proofs.Remote.Bodies
import FeedDesk.Proofs.Remote.Retries
import FeedDesk.Proofs.Text.Extension

/-!
# What an answer comes to

The server answers with an object that may hold a result and an error. A fault is reported if the
result beside it is missing, null or of the expected kind. Beside a result of any other kind it is
lost, because the object is read as a whole. Without an error the result is the answer of the call,
and a missing one counts as null.
-/
namespace FeedDesk

open Record (given)

/-- An object that states a fault: the code and the message, zero and empty if they are missing. -/
structure Fault.StatedBy (fault : Fault) (fs : List (Option String × Json)) : Prop where
  names : ∀ m ∈ fs, m.1.isSome
  code : given fs "code" = [] ∧ fault.code = 0 ∨
    ∃ v, given fs "code" = [v] ∧ v.asInt64? = some fault.code
  message : given fs "message" = [] ∧ fault.message = "" ∨
    given fs "message" = [.ofString fault.message]

namespace Envelope

/-- What an object gives under a name; a missing member counts as null. -/
def valueOf (ms : List (Option String × Json)) (name : String) : Json :=
  (given ms name).head?.getD .null

/-- How the result and the error of an object decide what it comes to as an answer. -/
structure Decides {α : Type} (read : Json → Option α) (result error : Json)
    (answer : Answer α) : Prop where
  /-- A fault is reported if the result may be passed over. -/
  fault : ∀ (fault : Fault) fs, error = .object fs → fault.StatedBy fs →
    result = .null ∨ (read result).isSome → answer = .error (.fault fault.code fault.message)
  /-- A result of another kind makes the answer unreadable, whatever the error says. -/
  masked : result ≠ .null → read result = none → answer = .error .undecodable
  /-- Without an error, the call has the result. -/
  value : error = .null → ∀ v, answer = .ok v ↔ read result = some v
  /-- Without an error, the answer is unreadable if the result is. -/
  unreadable : error = .null → (answer = .error .undecodable ↔ read result = none)

end Envelope

/-! ## Members of an envelope -/

theorem Fault.ofJson?_object {fault : Fault} {fs : List (Option String × Json)}
    (h : fault.StatedBy fs) : Fault.ofJson? (.object fs) = some fault := by
  have honce : ∀ name ∈ ["code", "message"], (given fs name).length ≤ 1 := by
    intro name hname
    obtain rfl | rfl : name = "code" ∨ name = "message" := by simpa using hname
    · obtain ⟨hnone, -⟩ | ⟨v, hv, -⟩ := h.code
      · simp [hnone]
      · simp [hv]
    · obtain ⟨hnone, -⟩ | hv := h.message
      · simp [hnone]
      · simp [hv]
  obtain ⟨r, hr, hget⟩ := Record.ofJson?_once h.names honce
  have hcode : r.withDefault "code" 0 Json.asInt64? = some fault.code := by
    rw [Record.withDefault, hget "code" (by simp)]
    obtain ⟨hnone, hzero⟩ | ⟨v, hv, hread⟩ := h.code
    · simp [hnone, hzero]
    · simpa [hv] using hread
  have hmessage : r.withDefault "message" "" Json.asString? = some fault.message := by
    rw [Record.withDefault, hget "message" (by simp)]
    obtain ⟨hnone, hempty⟩ | hv := h.message
    · simp [hnone, hempty]
    · simp [hv, Json.ofString, Json.asString?]
  rw [ofJson?, hr]
  simp [hcode, hmessage]

namespace Envelope

variable {α : Type} {read : Json → Option α} {ms : List (Option String × Json)}

/-- A member that may be null may as well be missing. -/
theorem withDefault_nullable {r : Record} {name : String} (read : Json → Option α)
    (hget : r.get? name = (given ms name).head?) :
    r.withDefault name none (nullable read) = nullable read (valueOf ms name) := by
  rw [Record.withDefault, hget, valueOf]
  cases (given ms name).head? <;> rfl

theorem nullable_of_ne {v : Json} (h : v ≠ .null) : nullable read v = (read v).map some := by
  cases v <;> first | rfl | exact absurd rfl h

theorem ofJson?_object (hnames : ∀ m ∈ ms, m.1.isSome) (hresult : (given ms "result").length ≤ 1)
    (herror : (given ms "error").length ≤ 1) :
    ofJson? read (.object ms) = (nullable read (valueOf ms "result")).bind fun result =>
      (nullable Fault.ofJson? (valueOf ms "error")).bind fun error => some ⟨result, error⟩ := by
  have honce : ∀ name ∈ ["result", "error"], (given ms name).length ≤ 1 := by
    intro name hname
    obtain rfl | rfl : name = "result" ∨ name = "error" := by simpa using hname
    · exact hresult
    · exact herror
  obtain ⟨r, hr, hget⟩ := Record.ofJson?_once hnames honce
  have hmembers : members? (.object ms) = some r := hr
  rw [ofJson?, hmembers]
  simp only [Option.bind_eq_bind, Option.bind_some, Option.pure_def,
    withDefault_nullable read (hget "result" (by simp)),
    withDefault_nullable Fault.ofJson? (hget "error" (by simp))]

/-- An object of the expected form comes to what its result and its error decide. -/
theorem decides_readAnswer {text : String} (hparse : Json.parse? text = some (.object ms))
    (hnames : ∀ m ∈ ms, m.1.isSome) (hresult : (given ms "result").length ≤ 1)
    (herror : (given ms "error").length ≤ 1) :
    Decides read (valueOf ms "result") (valueOf ms "error") (readAnswer read text) := by
  have hread : readAnswer read text =
      (ofJson? read (.object ms)).elim (.error .undecodable) (answer read) := by
    rw [readAnswer, hparse, Option.bind_some]
    cases ofJson? read (.object ms) <;> rfl
  rw [ofJson?_object hnames hresult herror] at hread
  generalize valueOf ms "result" = result at hread ⊢
  generalize valueOf ms "error" = error at hread ⊢
  have hclear : error = .null →
      readAnswer read text = (read result).elim (.error .undecodable) .ok := by
    rintro rfl
    rw [hread]
    by_cases hnull : result = .null
    · subst hnull
      change answer read ⟨none, none⟩ = _
      unfold answer
      cases read .null <;> rfl
    · rw [nullable_of_ne hnull]
      cases read result <;> rfl
  constructor
  case fault =>
    rintro fault fs rfl hstated hpassed
    have hfault : nullable Fault.ofJson? (.object fs) = some (some fault) := by
      rw [nullable_of_ne Json.noConfusion, Fault.ofJson?_object hstated, Option.map_some]
    obtain ⟨passed, hpassed⟩ : ∃ passed, nullable read result = some passed := by
      by_cases hnull : result = .null
      · exact ⟨none, by rw [hnull]; rfl⟩
      · obtain ⟨v, hv⟩ := Option.isSome_iff_exists.mp (hpassed.resolve_left hnull)
        exact ⟨some v, by rw [nullable_of_ne hnull, hv, Option.map_some]⟩
    rw [hread, hpassed, hfault]
    rfl
  case masked =>
    intro hnull hnone
    rw [hread, nullable_of_ne hnull, hnone]
    rfl
  case value =>
    intro herror v
    rw [hclear herror]
    cases read result <;> simp
  case unreadable =>
    intro herror
    rw [hclear herror]
    cases read result <;> simp

end Envelope

/-- Neither a result nor a fault is a reason to attempt a call again. -/
theorem isFinal_readAnswer {α : Type} (read : Json → Option α) (text : String) :
    IsFinal (readAnswer read text) := by
  intro e he
  unfold readAnswer Envelope.answer at he
  split at he
  · split at he
    · obtain rfl := Except.error.inj he
      rfl
    · cases he
    · split at he
      · cases he
      · obtain rfl := Except.error.inj he
        rfl
  · obtain rfl := Except.error.inj he
    rfl

/-! ## Calls -/

theorem responseText_complete {document : String} (h : document.toUTF8.size ≤ bodyLimit) :
    responseText (.response ⟨200, none, [document.toUTF8], true⟩) = .ok document := by
  have hbody : readBody bodyLimit ⟨200, none, [document.toUTF8], true⟩ = .ok document.toUTF8 := by
    have hsilent : Announces none [document.toUTF8] := by rintro _ ⟨⟩
    have hfits : ¬ bodyLimit < totalSize [document.toUTF8] := Nat.not_lt.mpr h
    have hjoined : joined [document.toUTF8] = document.toUTF8 := ByteArray.append_empty
    rw [readBody_eq_joinChunks hsilent, joinChunks_empty, if_neg hfits, hjoined]
  have hsuccess : isSuccess 200 = true := rfl
  unfold responseText
  simp only [hsuccess, hbody, Text.fromUTF8?_toUTF8, Bool.not_true, Bool.false_eq_true, if_false]

namespace Client

section

variable {α σ : Type} (transport : Transport σ) (client : Client) (call : RemoteCall)
  (read : Json → Option α) (link : Link σ)

/-- What comes of the request of each attempt of a call, if they are made without end. -/
def delivered (k : Nat) : Exchange :=
  let before := client.linkBefore transport call read link k
  (transport.deliver (client.request before.nextId call) before.server).1.outcome

/-- A call comes to the document of the first successful response. -/
theorem answer_run {k : Nat} {text : String} (hk : k ≤ if call.isRepeatable then retryLimit else 0)
    (hbefore : ∀ j < k, ¬ IsFinal (client.outcome transport call read link j))
    (hdelivered : responseText (client.delivered transport call read link k) = .ok text) :
    (client.run transport call read link).answer = readAnswer read text := by
  have houtcome : client.outcome transport call read link k = readAnswer read text := by
    change (responseText (client.delivered transport call read link k)).bind (readAnswer read) = _
    rw [hdelivered]
    rfl
  have hlast : IsLeast {j | IsFinal (client.outcome transport call read link j) ∨
      j = if call.isRepeatable then retryLimit else 0} k := by
    constructor
    · exact .inl (houtcome ▸ isFinal_readAnswer read text)
    · rintro j (hfinal | rfl)
      · exact not_lt.mp fun hj => hbefore j hj hfinal
      · exact hk
  exact (congrArg CallRun.answer (attemptAgain_eq hlast)).trans houtcome

/-- A call that comes to an object has what the result and the error of the object decide. -/
theorem run_decides {k : Nat} {text : String} {ms : List (Option String × Json)}
    (hk : k ≤ if call.isRepeatable then retryLimit else 0)
    (hbefore : ∀ j < k, ¬ IsFinal (client.outcome transport call read link j))
    (hdelivered : responseText (client.delivered transport call read link k) = .ok text)
    (hparse : Json.parse? text = some (.object ms)) (hnames : ∀ m ∈ ms, m.1.isSome)
    (hresult : (given ms "result").length ≤ 1) (herror : (given ms "error").length ≤ 1) :
    Envelope.Decides read (Envelope.valueOf ms "result") (Envelope.valueOf ms "error")
      (client.run transport call read link).answer := by
  rw [answer_run transport client call read link hk hbefore hdelivered]
  exact Envelope.decides_readAnswer hparse hnames hresult herror

end

def successWith (document : String) : Delivery :=
  ⟨.response ⟨200, none, [document.toUTF8], true⟩, 0⟩

/-- A server that is not available at first and answers with a document then. -/
def answeringLate (document : String) : Transport Nat :=
  .playing fun k => if k = 0 then ⟨.response ⟨503, none, [], true⟩, 0⟩ else successWith document

def bareFault : List (Option String × Json) := [(some "code", .ofInt 3)]

def faultMembers : List (Option String × Json) :=
  [(some "version", .ofString "1.1"), (some "result", .null), (some "error", .object bareFault)]

def faultText : String :=
  "\x7b\"version\":\"1.1\",\"result\":null,\"error\":\x7b\"code\":3\x7d\x7d"

theorem parse?_faultText : Json.parse? faultText = some (.object faultMembers) := by
  have hwritten : Json.render (.object faultMembers) = faultText := by decide +kernel
  have hfault : (Json.object bareFault).Legible :=
    .object (List.forall_mem_singleton.mpr (Json.legible_ofInt 3))
  rw [← hwritten]
  refine Json.parse?_render (.object ?_)
  simp [faultMembers, Json.legible_ofString, hfault, Json.Legible.null]

/-- The second attempt of a call comes to a fault. -/
theorem late_fault_decides :
    Envelope.Decides Item.listOfJson? .null (.object bareFault)
        ((default : Client).run (answeringLate faultText) (.viewFeed 3) Item.listOfJson?
          { server := 0 }).answer ∧
      Fault.StatedBy ⟨3, ""⟩ bareFault ∧
      ((default : Client).run (answeringLate faultText) (.viewFeed 3) Item.listOfJson?
        { server := 0 }).answer = .error (.fault 3 "") := by
  have hsize : faultText.toUTF8.size ≤ bodyLimit := by decide +kernel
  have hunavailable : ∀ j < 1, ¬ IsFinal ((default : Client).outcome (answeringLate faultText)
      (.viewFeed 3) Item.listOfJson? { server := 0 } j) := by
    intro j hj hfinal
    obtain rfl := Nat.lt_one_iff.mp hj
    exact Bool.noConfusion (hfinal (.httpStatus 503) rfl)
  have hdecides := run_decides (answeringLate faultText) default (.viewFeed 3) Item.listOfJson?
    { server := 0 } (k := 1) (by decide) hunavailable (responseText_complete hsize)
    parse?_faultText (by decide) (by decide) (by decide)
  have hstated : Fault.StatedBy ⟨3, ""⟩ bareFault :=
    ⟨by decide, .inr ⟨.ofInt 3, rfl, by decide +kernel⟩, .inl ⟨rfl, rfl⟩⟩
  exact ⟨hdecides, hstated, hdecides.fault _ _ rfl hstated (.inl rfl)⟩

def feedFault : List (Option String × Json) :=
  [(some "code", .ofInt 3), (some "message", .ofString "Invalid feed id")]

/-- An object that reports a fault beside a result that is no list of items. -/
def maskedMembers : List (Option String × Json) :=
  [(some "version", .ofString "1.1"), (some "result", .bool false),
    (some "error", .object feedFault)]

def maskedText : String :=
  "\x7b\"version\":\"1.1\",\"result\":false,\"error\":" ++
    "\x7b\"code\":3,\"message\":\"Invalid feed id\"\x7d\x7d"

theorem parse?_maskedText : Json.parse? maskedText = some (.object maskedMembers) := by
  have hwritten : Json.render (.object maskedMembers) = maskedText := by decide +kernel
  have hfault : (Json.object feedFault).Legible := by
    refine .object ?_
    simp [feedFault, Json.legible_ofInt, Json.legible_ofString]
  rw [← hwritten]
  refine Json.parse?_render (.object ?_)
  simp [maskedMembers, Json.legible_ofString, hfault, Json.Legible.bool]

/-- The server reports a fault, and the call does not say so. -/
theorem fault_masked :
    Json.parse? maskedText = some (.object maskedMembers) ∧
      Envelope.valueOf maskedMembers "error" = .object feedFault ∧
      Fault.StatedBy ⟨3, "Invalid feed id"⟩ feedFault ∧
      ((default : Client).run (.playing fun _ => successWith maskedText) (.viewFeed 3)
        Item.listOfJson? { server := 0 }).answer = .error .undecodable ∧
      ((default : Client).run (.playing fun _ => successWith maskedText) (.viewFeed 3)
        Item.listOfJson? { server := 0 }).answer ≠ .error (.fault 3 "Invalid feed id") := by
  have hsize : maskedText.toUTF8.size ≤ bodyLimit := by decide +kernel
  have hanswer := answer_run (.playing fun _ => successWith maskedText) default (.viewFeed 3)
    Item.listOfJson? { server := 0 } (k := 0) (Nat.zero_le _)
    (fun j hj => absurd hj (Nat.not_lt_zero j)) (responseText_complete hsize)
  have hdecides : Envelope.Decides Item.listOfJson? (.bool false) (.object feedFault)
      (readAnswer Item.listOfJson? maskedText) :=
    Envelope.decides_readAnswer parse?_maskedText (by decide) (by decide) (by decide)
  have hmasked := hanswer.trans (hdecides.masked Json.noConfusion rfl)
  exact ⟨parse?_maskedText, rfl, ⟨by decide, .inr ⟨.ofInt 3, rfl, by decide +kernel⟩, .inr rfl⟩,
    hmasked, by rw [hmasked]; simp⟩

end Client

end FeedDesk
