import FeedDesk.Config
import FeedDesk.Proofs.Text.Printable
import FeedDesk.Proofs.Url.Paths
import FeedDesk.Remote.Client
import Mathlib.Data.List.TakeWhile

/-!
# What is said of errors

What is said of an address or of settings that are refused is printable. What is said of a failed
call is printable unless the server reported a fault: the text of a fault is quoted as it came.
-/
namespace FeedDesk

open Text

/-! ## Addresses -/

namespace Url

theorem UrlError.printable_message (e : UrlError) : Printable e.message := by
  cases e <;> decide

theorem not_unprintable_toLower {c : Char} (h : 43 ≤ c.toNat ∧ c.toNat ≤ 122) :
    isUnprintable c.toLower = false := by
  have hrange : 0x20 ≤ c.toLower.toNat ∧ c.toLower.toNat < 0x7f := by
    rw [toNat_toLower]
    split <;> omega
  exact not_unprintable_of_range hrange.1 hrange.2

theorem range_of_isAlphanum {c : Char} (h : c.isAlphanum = true) :
    48 ≤ c.toNat ∧ c.toNat ≤ 122 := by
  change (decide ('A'.val ≤ c.val ∧ c.val ≤ 'Z'.val) ||
    (decide ('a'.val ≤ c.val) && decide (c.val ≤ 'z'.val)) ||
    (decide ('0'.val ≤ c.val) && decide (c.val ≤ '9'.val))) = true at h
  have hvalue : c.val.toNat = c.toNat := rfl
  simp [UInt32.le_iff_toNat_le] at h
  omega

/-- A scheme has letters, digits and three signs only. -/
theorem printable_readScheme {cs rest : List Char} {scheme : String}
    (h : readScheme cs = some (scheme, rest)) : Printable scheme := by
  have hlower : ∀ c ∈ (cs.takeWhile fun c => c.isAlphanum || c == '+' || c == '-' || c == '.'),
      isUnprintable c.toLower = false := by
    intro c hc
    have hkind := List.mem_takeWhile_imp hc
    simp only [Bool.or_eq_true, beq_iff_eq] at hkind
    apply not_unprintable_toLower
    rcases hkind with ((hword | rfl) | rfl) | rfl
    · have hrange := range_of_isAlphanum hword
      omega
    all_goals decide
  unfold readScheme at h
  dsimp only at h
  split at h
  · split at h
    · obtain ⟨rfl, -⟩ := Prod.mk.inj (Option.some.inj h)
      rw [printable_ofList, List.forall_mem_map]
      exact hlower
    · cases h
  · cases h

end Url

/-- A refused address is told of in printable words. -/
theorem Address.printable_feed [Url.DomainMapping] {text : String} {e : AddressError}
    (h : Address.feed text = .error e) :
    Printable e.message ∧ ∀ cause ∈ e.causes, Printable cause := by
  unfold feed at h
  split at h
  next cause _ =>
    obtain rfl := Except.error.inj h
    have hwords : Printable "Invalid URL: " := by decide
    refine ⟨printable_append.mpr ⟨hwords, cause.printable_message⟩, ?_⟩
    exact List.forall_mem_singleton.mpr cause.printable_message
  next scheme hread =>
    obtain rfl := Except.error.inj h
    obtain ⟨rest, hscheme⟩ := Url.readScheme_of_read hread
    have hwords : Printable "Unsupported scheme: " ∧
        Printable " (only http/https allowed)" := by decide
    have hquoted : Printable ("Unsupported scheme: " ++ scheme) :=
      printable_append.mpr ⟨hwords.1, Url.printable_readScheme hscheme⟩
    exact ⟨printable_append.mpr ⟨hquoted, hwords.2⟩, List.forall_mem_nil _⟩
  next =>
    split at h
    · obtain rfl := Except.error.inj h
      decide
    · cases h

theorem Address.printable_server [Url.DomainMapping] {text : String} {e : AddressError}
    (h : Address.server text = .error e) :
    Printable e.message ∧ ∀ cause ∈ e.causes, Printable cause := by
  unfold server at h
  cases hfeed : Address.feed text with
  | error refused =>
    rw [hfeed] at h
    obtain rfl := Except.error.inj h
    exact printable_feed hfeed
  | ok url =>
    rw [hfeed] at h
    change (if url.hasCredentials then _ else _) = _ at h
    split at h
    · obtain rfl := Except.error.inj h
      decide
    · cases h

/-! ## Settings -/

theorem ConfigError.printable_wording (e : ConfigError) :
    Printable e.message ∧ ∀ cause ∈ e.causes, Printable cause := by
  cases e with
  | unreadable =>
    have hdetail : Printable unreadableDetail := by decide
    exact ⟨printable_append.mpr ⟨by decide, hdetail⟩, List.forall_mem_singleton.mpr hdetail⟩
  | malformed =>
    have hdetail : Printable malformedDetail := by decide
    exact ⟨printable_append.mpr ⟨by decide, hdetail⟩, List.forall_mem_singleton.mpr hdetail⟩
  | tooLarge size =>
    have hwords : Printable "Config file too large: " ∧ Printable " bytes (limit " ∧
        Printable ")" := by decide
    refine ⟨?_, List.forall_mem_nil _⟩
    change Printable ("Config file too large: " ++ Nat.repr size ++ " bytes (limit " ++
      Nat.repr sizeLimit ++ ")")
    simp only [printable_append, printable_natRepr, hwords, and_self]

/-! ## Calls -/

namespace RemoteError

def quoted? : RemoteError → Option String
  | fault _ text => some text
  | _ => none

def EndsCall : RemoteError → Prop
  | declined _ | badServer _ => False
  | unreachable | httpStatus _ | timeout | fault .. | undecodable | tooLarge => True

/-- A failed call is told of in printable words, if the text that it quotes is printable. -/
theorem EndsCall.printable_message_iff {e : RemoteError} (h : e.EndsCall) :
    Printable e.message ↔ ∀ text, e.quoted? = some text → Printable text := by
  have unquoted {words : String} (hwords : Printable words) :
      Printable words ↔ ∀ text, (none : Option String) = some text → Printable text := by
    simp [hwords]
  cases e with
  | declined | badServer => exact h.elim
  | unreachable =>
    exact unquoted (printable_append.mpr ⟨by decide, by decide⟩)
  | timeout | tooLarge => exact unquoted (by decide)
  | undecodable =>
    exact unquoted (printable_append.mpr ⟨by decide, by decide⟩)
  | httpStatus status =>
    exact unquoted (printable_append.mpr ⟨by decide, printable_natRepr status⟩)
  | fault code text =>
    have hwords : Printable "Server error " ∧ Printable ": " := by decide
    change Printable ("Server error " ++ Int.repr code.toInt ++ ": " ++ text) ↔ _
    simp [quoted?, hwords]

theorem EndsCall.printable_causes {e : RemoteError} (h : e.EndsCall) :
    ∀ cause ∈ e.causes, Printable cause := by
  cases e with
  | declined | badServer => exact h.elim
  | httpStatus | timeout | fault | tooLarge => exact List.forall_mem_nil _
  | unreachable | undecodable => exact List.forall_mem_singleton.mpr (by decide)

end RemoteError

theorem endsCall_joinChunks {limit : Nat} {body : ByteArray} {chunks : List ByteArray}
    {e : RemoteError} (h : joinChunks limit body chunks = .error e) : e.EndsCall := by
  induction chunks generalizing body with
  | nil => cases h
  | cons chunk chunks ih =>
    unfold joinChunks at h
    split at h
    · obtain rfl := Except.error.inj h
      trivial
    · exact ih h

theorem endsCall_readBody {limit : Nat} {r : HttpResponse} {e : RemoteError}
    (h : readBody limit r = .error e) : e.EndsCall := by
  unfold readBody at h
  split at h
  · obtain rfl := Except.error.inj h
    trivial
  · split at h
    · split at h
      · cases h
      · obtain rfl := Except.error.inj h
        trivial
    next hjoined =>
      obtain rfl := Except.error.inj h
      exact endsCall_joinChunks hjoined

theorem endsCall_responseText {exchange : Exchange} {e : RemoteError}
    (h : responseText exchange = .error e) : e.EndsCall := by
  unfold responseText at h
  split at h
  · obtain rfl := Except.error.inj h
    trivial
  · obtain rfl := Except.error.inj h
    trivial
  · split at h
    · obtain rfl := Except.error.inj h
      trivial
    · split at h
      next hbody =>
        obtain rfl := Except.error.inj h
        exact endsCall_readBody hbody
      · split at h
        · cases h
        · obtain rfl := Except.error.inj h
          trivial

theorem endsCall_readAnswer {α : Type} {read : Json → Option α} {text : String} {e : RemoteError}
    (h : readAnswer read text = .error e) : e.EndsCall := by
  unfold readAnswer at h
  split at h
  next envelope _ =>
    unfold Envelope.answer at h
    split at h
    · obtain rfl := Except.error.inj h
      trivial
    · cases h
    · split at h
      · cases h
      · obtain rfl := Except.error.inj h
        trivial
  · obtain rfl := Except.error.inj h
    trivial

/-- What is repeated fails with an error of one of its attempts. -/
theorem error_attemptAgain {α σ : Type} {attempt : σ → Answer α × σ} {wait : Nat → σ → σ}
    {P : RemoteError → Prop} (hattempt : ∀ s e, (attempt s).1 = .error e → P e)
    (retries pause : Nat) (s : σ) {e : RemoteError}
    (h : (attemptAgain attempt wait retries pause s).answer = .error e) : P e := by
  induction retries generalizing pause s with
  | zero => exact hattempt s e h
  | succ retries ih =>
    unfold attemptAgain at h
    have hfirst := hattempt s
    split at h
    · cases h
    next failed after hfailed =>
      rw [hfailed] at hfirst
      split at h
      · exact ih _ _ h
      · obtain rfl := Except.error.inj h
        exact hfirst failed rfl

theorem Client.endsCall_run {α σ : Type} {transport : Transport σ} {client : Client}
    {call : RemoteCall} {read : Json → Option α} {link : Link σ} {e : RemoteError}
    (h : (client.run transport call read link).answer = .error e) : e.EndsCall := by
  refine error_attemptAgain (fun link e h => ?_) _ _ _ h
  change (responseText (transport.deliver (client.request link.nextId call)
    link.server).1.outcome).bind (readAnswer read) = .error e at h
  cases htext : responseText (transport.deliver (client.request link.nextId call)
      link.server).1.outcome with
  | error refused =>
    rw [htext] at h
    obtain rfl := Except.error.inj h
    exact endsCall_responseText htext
  | ok text =>
    rw [htext] at h
    exact endsCall_readAnswer h

end FeedDesk
