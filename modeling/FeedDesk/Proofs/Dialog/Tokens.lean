import FeedDesk.Proofs.Dialog.Run

/-!
# The tokens of sessions

Sessions are numbered as they are opened, and closing a view does not take a number back. As long
as fewer than `2 ^ 64` sessions are opened, no token is given to two of them. What a session's
items are queued with is settled when it is opened.
-/
namespace FeedDesk

/-- The token of the session with a number, counted from one. -/
def SessionToken.nth (n : Nat) : SessionToken := ⟨UInt64.ofNat n⟩

def Operation.openings : Operation → Nat
  | .openOn _ => 1
  | _ => 0

theorem Operation.NeedsReady.openings {op : Operation} (h : op.NeedsReady) : op.openings = 0 := by
  cases op with
  | openOn | cancel | deliver => exact h.elim
  | setFilter | setNaming | fetch | retry => rfl

namespace SessionToken

theorem nth_zero : nth 0 = initial := rfl

theorem next_nth (n : Nat) : (nth n).next = nth (n + 1) := by
  simp only [next, nth, UInt64.ofNat_add]
  rfl

theorem nth_injective {m n : Nat} (hm : m < UInt64.size) (hn : n < UInt64.size)
    (h : nth m = nth n) : m = n := by
  have hnum := congrArg (fun t => t.number.toNat) h
  simpa [nth, UInt64.toNat_ofNat_of_lt' hm, UInt64.toNat_ofNat_of_lt' hn] using hnum

end SessionToken

/-- After a number of openings, the last token is that of the last session, and so is the token of
the session that is open. -/
structure Dialog.Stamped (opened : Nat) (d : Dialog) : Prop where
  last : d.lastToken = .nth opened
  session : ∀ s, d.session = some s → s.token = .nth opened ∧ 0 < opened

namespace Dialog

theorem stamped_create (settings : DialogSettings) : (create settings).Stamped 0 :=
  ⟨rfl, fun s h => by simp [create] at h⟩

theorem Stamped.left {opened : Nat} {d : Dialog} (h : d.Stamped opened) : d.left.Stamped opened :=
  ⟨h.last, fun s hs => by simp [Dialog.left] at hs⟩

theorem Stamped.entered {opened : Nat} {d : Dialog} (h : d.Stamped opened) (source : FeedSource) :
    (d.entered source).Stamped (opened + 1) := by
  have htoken : d.lastToken.next = .nth (opened + 1) := by
    rw [h.last, SessionToken.next_nth]
  refine ⟨htoken, ?_⟩
  rintro _ ⟨⟩
  exact ⟨htoken, Nat.succ_pos _⟩

theorem Stamped.within {opened : Nat} {d : Dialog} {s s' : Session} (h : d.Stamped opened)
    (hs : d.session = some s) (ht : s'.token = s.token) (phase : Phase) :
    (d.within phase s').Stamped opened := by
  refine ⟨h.last, ?_⟩
  rintro _ ⟨⟩
  rw [ht]
  exact h.session s hs

theorem reproject_token (clock : Clock) (s : Session) : (s.reproject clock).token = s.token := by
  unfold Session.reproject
  split <;> rfl

theorem Stamped.refresh {opened : Nat} {d : Dialog} (h : d.Stamped opened) (now : Int64) :
    (d.refresh now).dialog.Stamped opened := by
  unfold Dialog.refresh
  split
  · exact h
  next s hs =>
    refine h.within hs ?_ d.phase
    exact reproject_token _ s

end Dialog

theorem Transition.stamped {now : Int64} {opened : Nat} {d : Dialog} {op : Operation} {r : Reply}
    (h : Transition now d op r) (hd : d.Stamped opened) :
    r.turn.dialog.Stamped (opened + op.openings) := by
  cases h with
  | refused op hop =>
    rw [hop.openings]
    exact hd
  | unopened | unchecked | unfailed | unheeded | progressed => exact hd
  | opened source | reopened source => exact hd.entered source
  | cancelled | loadFailed | completed => exact hd.left
  | filtered _ s _ hs | renamed _ s _ hs => exact (hd.within hs (by rfl) _).refresh now
  | fetched _ _ s _ hs | retried _ s _ hs | loaded _ s _ hs | timeElapsed s _ hs
  | halted _ s _ hs | brokenOff _ s _ hs => exact hd.within hs (by rfl) _

/-! ## What the items of a session are queued with -/

/-- The feed that an operation leaves as the last that the view was opened on. -/
def Operation.shows (shown : Option FeedSource) : Operation → Option FeedSource
  | .openOn source => some source
  | _ => shown

theorem Operation.NeedsReady.shows {op : Operation} (h : op.NeedsReady)
    (shown : Option FeedSource) : op.shows shown = shown := by
  cases op with
  | openOn | cancel | deliver => exact h.elim
  | setFilter | setNaming | fetch | retry => rfl

/-- The items of a view's session are queued as the feed says that the view shows. -/
def Dialog.Serves (shown : Option FeedSource) (d : Dialog) : Prop :=
  ∀ s, d.session = some s → ∃ source, shown = some source ∧ s.defaults = source.defaults

theorem Dialog.serves_left (d : Dialog) (shown : Option FeedSource) : d.left.Serves shown :=
  fun s h => by simp [Dialog.left] at h

theorem Dialog.serves_entered (d : Dialog) (source : FeedSource) :
    (d.entered source).Serves (some source) := by
  rintro _ ⟨⟩
  exact ⟨source, rfl, rfl⟩

theorem Dialog.Serves.within {shown : Option FeedSource} {d : Dialog} {s s' : Session}
    (h : d.Serves shown) (hs : d.session = some s) (ht : s'.defaults = s.defaults)
    (phase : Phase) : (d.within phase s').Serves shown := by
  rintro _ ⟨⟩
  rw [ht]
  exact h s hs

theorem Dialog.Serves.refresh {shown : Option FeedSource} {d : Dialog} (h : d.Serves shown)
    (now : Int64) : (d.refresh now).dialog.Serves shown := by
  unfold Dialog.refresh
  split
  · exact h
  next s hs =>
    refine h.within hs ?_ d.phase
    unfold Session.reproject
    split <;> rfl

theorem Transition.serves {now : Int64} {shown : Option FeedSource} {d : Dialog} {op : Operation}
    {r : Reply} (h : Transition now d op r) (hd : d.Serves shown) :
    r.turn.dialog.Serves (op.shows shown) := by
  cases h with
  | refused op hop =>
    rw [hop.shows]
    exact hd
  | unopened | unchecked | unfailed | unheeded | progressed => exact hd
  | opened source | reopened source => exact d.serves_entered source
  | cancelled | loadFailed | completed => exact d.serves_left shown
  | filtered _ s _ hs | renamed _ s _ hs => exact (hd.within hs (by rfl) _).refresh now
  | fetched _ _ s _ hs | retried _ s _ hs | loaded _ s _ hs | timeElapsed s _ hs
  | halted _ s _ hs | brokenOff _ s _ hs => exact hd.within hs (by rfl) _

end FeedDesk
