import FeedDesk.Proofs.Dialog.Run
import FeedDesk.Proofs.Feed.Duplicates

/-!
# What a view holds in each phase

The session of a view fits its phase: nothing is kept while the items are loading, the items and
their table are there afterwards, the transmit sign is only up while a batch is sent, and a failed
batch is only kept while the view is ready. This holds after any operations and events whatever.
-/
namespace FeedDesk

/-- What a session holds in a phase of its view. -/
structure Session.Fits (s : Session) (phase : Phase) : Prop where
  blank : phase = .loading → s.items = none ∧ s.projection = none ∧ s.latch = none ∧
    s.batch = 0 ∧ s.transmitVisible = false ∧ s.pendingRetry = none
  loaded : phase = .ready ∨ phase = .dispatching →
    (∃ items, s.items = some items ∧ (items.map Item.url).Nodup) ∧
      s.projection.isSome ∧ s.latch.isSome
  sign : s.transmitVisible = true → phase = .dispatching
  retry : s.pendingRetry.isSome → phase = .ready
  page : s.page = 1

/-- A view is open exactly if it has a session, and the session fits its phase. -/
structure Dialog.Consistent (d : Dialog) : Prop where
  session_none_iff : d.session = none ↔ d.phase = .closed
  session_fits : ∀ s, d.session = some s → s.Fits d.phase

namespace Session

variable {s : Session}

theorem fits_fresh (token : SessionToken) (source : FeedSource) :
    (fresh token source).Fits .loading where
  blank _ := ⟨rfl, rfl, rfl, rfl, rfl, rfl⟩
  loaded h := by simp at h
  sign h := by simp [fresh] at h
  retry h := by simp [fresh] at h
  page := rfl

/-- Items are shown for the first time or anew. A batch that can be retried is kept. -/
theorem fits_shown {items : List Item} (hs : s.Fits .loading ∨ s.Fits .ready)
    (hi : (items.map Item.url).Nodup) (clock : Clock) : (s.shown items clock).Fits .ready where
  blank h := by simp at h
  loaded _ := ⟨⟨items, rfl, hi⟩, rfl, rfl⟩
  sign h := by
    rcases hs with hs | hs
    · exact absurd (hs.sign h) (by simp)
    · exact hs.sign h
  retry _ := rfl
  page := rfl

theorem Fits.filtered (hs : s.Fits .ready) (filter : StatusFilter) :
    ({ s with filter } : Session).Fits .ready :=
  ⟨hs.blank, hs.loaded, hs.sign, hs.retry, hs.page⟩

theorem Fits.renamed (hs : s.Fits .ready) (naming : Naming) :
    ({ s with naming } : Session).Fits .ready :=
  ⟨hs.blank, hs.loaded, hs.sign, hs.retry, hs.page⟩

theorem Fits.sending (hs : s.Fits .ready) :
    ({ s with pendingRetry := none, batch := s.batch + 1 } : Session).Fits .dispatching where
  blank h := by simp at h
  loaded _ := hs.loaded (.inl rfl)
  sign _ := rfl
  retry h := by simp at h
  page := hs.page

theorem Fits.signed (hs : s.Fits .dispatching) :
    ({ s with transmitVisible := true } : Session).Fits .dispatching where
  blank h := by simp at h
  loaded := hs.loaded
  sign _ := rfl
  retry := hs.retry
  page := hs.page

theorem Fits.halted (hs : s.Fits .dispatching) (retry : Option BatchFailure) :
    ({ s.unsigned with pendingRetry := retry } : Session).Fits .ready where
  blank h := by simp at h
  loaded _ := hs.loaded (.inr rfl)
  sign h := by simp [unsigned] at h
  retry _ := rfl
  page := hs.page

end Session

namespace Dialog

theorem Consistent.coherent {d : Dialog} (hd : d.Consistent) : d.Coherent := hd.session_none_iff

theorem consistent_create (settings : DialogSettings) : (create settings).Consistent :=
  ⟨coherent_create settings, fun _ h => by simp [create] at h⟩

theorem consistent_left (d : Dialog) : d.left.Consistent :=
  ⟨d.coherent_left, fun _ h => by simp [left] at h⟩

theorem consistent_entered (d : Dialog) (source : FeedSource) : (d.entered source).Consistent := by
  refine ⟨d.coherent_entered source, fun s h => ?_⟩
  obtain rfl := Option.some.inj h
  exact Session.fits_fresh _ source

theorem consistent_within (d : Dialog) {phase : Phase} {s : Session} (hp : phase ≠ .closed)
    (hs : s.Fits phase) : (d.within phase s).Consistent := by
  refine ⟨d.coherent_within hp s, fun s' h => ?_⟩
  obtain rfl := Option.some.inj h
  exact hs

/-- A ready session is shown anew after any change that leaves its items alone. -/
theorem consistent_refresh {d : Dialog} {s : Session} (hs : s.Fits .ready) (now : Int64) :
    ((d.within .ready s).refresh now).dialog.Consistent := by
  obtain ⟨⟨items, hi, hnodup⟩, -⟩ := hs.loaded (.inl rfl)
  rw [refresh_of_items rfl hi]
  exact consistent_within _ (by simp [within]) (Session.fits_shown (.inr hs) hnodup _)

end Dialog

theorem Transition.consistent {now : Int64} {d : Dialog} {op : Operation} {r : Reply}
    (h : Transition now d op r) (hd : d.Consistent) : r.turn.dialog.Consistent := by
  have fits {s : Session} {phase : Phase} (hs : d.session = some s) (hp : d.phase = phase) :
      s.Fits phase := hp ▸ hd.session_fits s hs
  cases h with
  | refused | unopened | unchecked | unfailed | unheeded | progressed => exact hd
  | opened source | reopened source => exact d.consistent_entered source
  | cancelled | loadFailed | completed => exact d.consistent_left
  | filtered filter s hp hs =>
    exact hp ▸ Dialog.consistent_refresh ((fits hs hp).filtered filter) now
  | renamed naming s hp hs =>
    exact hp ▸ Dialog.consistent_refresh ((fits hs hp).renamed naming) now
  | fetched _ _ s hp hs | retried _ s hp hs =>
    exact d.consistent_within (by simp) (fits hs hp).sending
  | loaded items s hp hs hi =>
    have hnodup := (duplicateUrl_eq_none items).mp hi
    exact d.consistent_within (by simp) (Session.fits_shown (.inl (fits hs hp)) hnodup _)
  | timeElapsed s hp hs => exact d.consistent_within (by simp) (fits hs hp).signed
  | halted failure s hp hs => exact d.consistent_within (by simp) ((fits hs hp).halted _)
  | brokenOff _ s hp hs => exact d.consistent_within (by simp) ((fits hs hp).halted _)

/-! ## The number of a batch -/

/-- The number of batches of a session, after an effect. A load is the beginning of a session. -/
def countBatch (begun : Nat) : Effect → Nat
  | .start (.load ..) => 0
  | .start (.dispatch ..) => begun + 1
  | _ => begun

def batchesBegun (effects : List Effect) : Nat := effects.foldl countBatch 0

@[simp] theorem batchesBegun_append (past effects : List Effect) :
    batchesBegun (past ++ effects) = effects.foldl countBatch (batchesBegun past) :=
  List.foldl_append

@[simp] theorem foldl_countBatch_signOff (n : Nat) (s : Session) :
    s.signOff.foldl countBatch n = n := by
  unfold Session.signOff
  split <;> rfl

@[simp] theorem foldl_countBatch_closing (n : Nat) (s : Session) :
    s.closing.foldl countBatch n = n := by
  simp [Session.closing, countBatch]

/-- A view numbers the batches of a session, and a batch is sent under the last number. -/
structure Dialog.Numbered (past : List Effect) (d : Dialog) : Prop where
  batch : ∀ s, d.session = some s → s.batch = UInt64.ofNat (batchesBegun past)
  begun : d.phase = .dispatching → 0 < batchesBegun past

theorem Dialog.Numbered.keep {past effects : List Effect} {d d' : Dialog} (hn : d.Numbered past)
    (he : effects.foldl countBatch (batchesBegun past) = batchesBegun past)
    (hs : ∀ s', d'.session = some s' → ∃ s, d.session = some s ∧ s'.batch = s.batch)
    (hp : d'.phase = .dispatching → d.phase = .dispatching) : d'.Numbered (past ++ effects) := by
  constructor
  · intro s' hs'
    obtain ⟨s, h, hb⟩ := hs s' hs'
    rw [batchesBegun_append, he, hb, hn.batch s h]
  · intro h
    rw [batchesBegun_append, he]
    exact hn.begun (hp h)

theorem Dialog.Numbered.refreshed {past : List Effect} {d : Dialog} {s s' : Session}
    (hn : d.Numbered past) (hs : d.session = some s)
    (hfits : s'.Fits .ready) (hb : s'.batch = s.batch) (now : Int64) :
    ((d.within d.phase s').refresh now).dialog.Numbered
      (past ++ ((d.within d.phase s').refresh now).effects) := by
  obtain ⟨⟨items, hi, -⟩, -⟩ := hfits.loaded (.inl rfl)
  rw [refresh_of_items rfl hi]
  refine hn.keep rfl ?_ id
  rintro _ ⟨⟩
  exact ⟨s, hs, hb⟩

theorem Dialog.Numbered.sending {past : List Effect} {d : Dialog} {s s' : Session}
    (hn : d.Numbered past) (hs : d.session = some s) (hb : s'.batch = s.batch + 1)
    (queue : JobQueue) :
    (d.within .dispatching s').Numbered (past ++ d.batchEffects s queue) := by
  have hcount : batchesBegun (past ++ d.batchEffects s queue) = batchesBegun past + 1 :=
    batchesBegun_append past _
  constructor
  · rintro _ ⟨⟩
    rw [hcount, hb, hn.batch s hs, UInt64.ofNat_add]
    rfl
  · intro _
    rw [hcount]
    exact Nat.succ_pos _

theorem Dialog.numbered_entered (d : Dialog) (source : FeedSource) (past : List Effect) :
    (d.entered source).Numbered (past ++ source.opening d.lastToken.next) := by
  constructor
  · rintro _ ⟨⟩
    rw [batchesBegun_append]
    rfl
  · simp [entered]

theorem Transition.numbered {now : Int64} {past : List Effect} {d : Dialog} {op : Operation}
    {r : Reply} (h : Transition now d op r) (hd : d.Consistent) (hn : d.Numbered past) :
    r.turn.dialog.Numbered (past ++ r.turn.effects) := by
  have fits {s : Session} (hs : d.session = some s) (hp : d.phase = .ready) : s.Fits .ready :=
    hp ▸ hd.session_fits s hs
  cases h with
  | refused | unopened | unfailed | unheeded | unchecked | progressed =>
    exact hn.keep rfl (fun s hs => ⟨s, hs, rfl⟩) id
  | opened source => exact d.numbered_entered source past
  | reopened source s =>
    rw [← List.append_assoc]
    exact d.numbered_entered source _
  | cancelled | loadFailed | completed =>
    exact hn.keep (by simp [countBatch]) (by simp [Dialog.left]) (by simp [Dialog.left])
  | filtered filter s hp hs => exact hn.refreshed hs ((fits hs hp).filtered filter) rfl now
  | renamed naming s hp hs => exact hn.refreshed hs ((fits hs hp).renamed naming) rfl now
  | fetched _ queue s hp hs => exact hn.sending hs rfl queue
  | retried failure s hp hs => exact hn.sending hs rfl failure.retryQueue
  | loaded items s hp hs =>
    refine hn.keep (by simp [Dialog.tableEffects, countBatch]) ?_ (by simp [Dialog.within])
    rintro _ ⟨⟩
    exact ⟨s, hs, rfl⟩
  | timeElapsed s hp hs =>
    refine hn.keep rfl ?_ fun _ => hp
    rintro _ ⟨⟩
    exact ⟨s, hs, rfl⟩
  | halted _ s hp hs | brokenOff _ s hp hs =>
    refine hn.keep (by simp [countBatch]) ?_ (by simp [Dialog.within])
    rintro _ ⟨⟩
    exact ⟨s, hs, rfl⟩

/-! ## All runs -/

/-- After any run of a view, with events of any kind, session and batch in any order, its session
fits its phase. Batches are numbered from one unless a session has begun `2 ^ 64` of them. -/
theorem Dialog.run_consistent (settings : DialogSettings) (ops : List (Int64 × Operation)) :
    ((create settings).run ops).dialog.Consistent ∧
      (batchesBegun ((create settings).run ops).effects < UInt64.size →
        ∀ s, ((create settings).run ops).dialog.session = some s →
          ((create settings).run ops).dialog.phase = .dispatching → 1 ≤ s.batch) := by
  have inv : ((create settings).run ops).dialog.Consistent ∧
      ((create settings).run ops).dialog.Numbered ((create settings).run ops).effects := by
    refine run_create_induction (P := fun past d => d.Consistent ∧ d.Numbered past) ?_ settings
      ⟨consistent_create settings, ?_, ?_⟩ ops
    · intro now past d op r ht _ h
      exact ⟨ht.consistent h.1, ht.numbered h.1 h.2⟩
    · simp [create]
    · simp [create]
  refine ⟨inv.1, fun hbound s hs hp => ?_⟩
  have hpos := inv.2.begun hp
  rw [inv.2.batch s hs, UInt64.le_iff_toNat_le, UInt64.toNat_ofNat_of_lt' hbound]
  exact hpos

end FeedDesk
