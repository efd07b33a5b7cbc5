import FeedDesk.Proofs.Dialog.Tokens

/-!
# Views under later tokens

Tokens are only compared and counted on. So a view, its work and the events for it can be moved to
later tokens, all by the same number of openings, and every step of the moved view is the moved
step: no operation can tell how often a view was opened before.
-/
namespace FeedDesk

/-- The token that is handed out a number of openings later. -/
def SessionToken.later (k : UInt64) (t : SessionToken) : SessionToken := ⟨t.number + k⟩

def Session.later (k : UInt64) (s : Session) : Session := { s with token := s.token.later k }

def Dialog.later (k : UInt64) (d : Dialog) : Dialog :=
  { d with session := d.session.map (Session.later k), lastToken := d.lastToken.later k }

def Task.later (k : UInt64) : Task → Task
  | .load token call => .load (token.later k) call
  | .timer token batch delay => .timer (token.later k) batch delay
  | .dispatch token batch defaults queue => .dispatch (token.later k) batch defaults queue

def Effect.later (k : UInt64) : Effect → Effect
  | .start task => .start (task.later k)
  | .host call => .host call
  | .abandonTasks => .abandonTasks

def Event.later (k : UInt64) (e : Event) : Event := ⟨e.token.later k, e.report⟩

def Turn.later (k : UInt64) (t : Turn) : Turn :=
  ⟨t.dialog.later k, t.effects.map (Effect.later k)⟩

def Reply.later (k : UInt64) (r : Reply) : Reply := ⟨r.outcome, r.turn.later k⟩

def Operation.later (k : UInt64) : Operation → Operation
  | .deliver event => .deliver (event.later k)
  | op => op

variable {k : UInt64}

namespace SessionToken

theorem later_injective (k : UInt64) {t u : SessionToken} (h : t.later k = u.later k) : t = u := by
  have hnumber : t.number + k = u.number + k := congrArg number h
  rw [UInt64.add_left_inj] at hnumber
  cases t
  cases u
  simp_all

theorem later_eq_iff {t u : SessionToken} : t.later k = u.later k ↔ t = u :=
  ⟨later_injective k, congrArg _⟩

theorem next_later (t : SessionToken) : (t.later k).next = t.next.later k := by
  simp only [next, later, UInt64.add_assoc, UInt64.add_comm]

@[simp] theorem later_zero (t : SessionToken) : t.later 0 = t := by
  simp [later]

end SessionToken

@[simp] theorem Dialog.later_zero (d : Dialog) : d.later 0 = d := by
  obtain ⟨_, _, session, _⟩ := d
  cases session <;> simp [Dialog.later, Session.later]

@[simp] theorem Event.later_zero (e : Event) : e.later 0 = e := by
  simp [Event.later]

@[simp] theorem Dialog.later_phase (d : Dialog) : (d.later k).phase = d.phase := rfl

@[simp] theorem hostCallsOf_later (effects : List Effect) :
    hostCallsOf (effects.map (Effect.later k)) = hostCallsOf effects := by
  induction effects with
  | nil => rfl
  | cons effect effects ih => cases effect <;> simp [Effect.later, ih]

/-- A step followed by another is moved if both are. -/
theorem Turn.andThen_later {t : Turn} {next : Dialog → Turn}
    (h : ∀ d, next (d.later k) = (next d).later k) :
    (t.later k).andThen next = (t.andThen next).later k := by
  simp only [andThen, later, h, List.map_append]

/-! ## The steps of a moved view -/

namespace Dialog

variable {d : Dialog} {now : Int64}

theorem hideTransmit_later (d : Dialog) : (d.later k).hideTransmit = d.hideTransmit.later k := by
  obtain ⟨_, _, session, _⟩ := d
  cases session with
  | none => rfl
  | some s =>
    obtain ⟨_, _, _, _, _, _, _, _, _, _, visible, _⟩ := s
    cases visible <;> rfl

theorem endSession_later (d : Dialog) : (d.later k).endSession = d.endSession.later k := rfl

theorem close_later (d : Dialog) : (d.later k).close = d.close.later k := by
  unfold close
  rw [later_phase]
  split
  · rfl
  · refine Turn.andThen_later (t := ⟨d, [.abandonTasks]⟩) fun d => ?_
    rw [hideTransmit_later, Turn.andThen_later endSession_later]

theorem beginSession_later (source : FeedSource) (d : Dialog) :
    (d.later k).beginSession source = (d.beginSession source).later k := by
  have hnext : (d.later k).lastToken.next = d.lastToken.next.later k := d.lastToken.next_later
  simp only [beginSession, hnext]
  rfl

theorem openOn_later (source : FeedSource) (d : Dialog) :
    (d.later k).openOn source = (d.openOn source).later k := by
  rw [openOn, close_later, Turn.andThen_later (beginSession_later source), openOn]

theorem refresh_later (now : Int64) (d : Dialog) :
    (d.later k).refresh now = (d.refresh now).later k := by
  obtain ⟨_, _, session, _⟩ := d
  cases session with
  | none => rfl
  | some s =>
    obtain ⟨_, _, items, _, _, _, _, projection, _, _, _, _⟩ := s
    cases items with
    | some items => rfl
    | none => cases projection <;> rfl

theorem whenReady_later {step step' : Session → Reply} (d : Dialog)
    (h : ∀ s, step' (s.later k) = (step s).later k) :
    (d.later k).whenReady step' = (d.whenReady step).later k := by
  obtain ⟨_, phase, session, _⟩ := d
  cases phase <;> cases session <;> first | rfl | exact h _

theorem fetch_later (checked : List String) (d : Dialog) :
    (d.later k).fetch checked = (d.fetch checked).later k := by
  refine d.whenReady_later fun s => ?_
  have hitems : (s.later k).loadedItems = s.loadedItems := rfl
  rw [hitems]
  split <;> rfl

theorem retry_later (d : Dialog) : (d.later k).retry = d.retry.later k := by
  refine d.whenReady_later fun s => ?_
  have hretry : (s.later k).pendingRetry = s.pendingRetry := rfl
  rw [hretry]
  split <;> rfl

theorem failLoad_later (e : LoadError) (d : Dialog) :
    (d.later k).failLoad e = (d.failLoad e).later k := by
  rw [failLoad, close_later, Turn.andThen_later fun _ => rfl, failLoad]

theorem acceptItems_later (now : Int64) (items : List Item) (s : Session) (d : Dialog) :
    (d.later k).acceptItems now items (s.later k) = (d.acceptItems now items s).later k := by
  refine Turn.andThen_later
    (t := ⟨d.within .ready { s with items := some items }, [.host (.loading false)]⟩) fun d => ?_
  rw [refresh_later, Turn.andThen_later fun _ => rfl]

theorem onLoaded_later (now : Int64) (result : Answer (List Item)) (s : Session) (d : Dialog) :
    (d.later k).onLoaded now result (s.later k) = (d.onLoaded now result s).later k := by
  unfold onLoaded
  rw [later_phase]
  split
  · rfl
  · split
    · exact failLoad_later _ d
    · split
      · exact failLoad_later _ d
      · exact acceptItems_later now _ s d

theorem onProgress_later (done total : Nat) (d : Dialog) :
    (d.later k).onProgress done total = (d.onProgress done total).later k := by
  unfold onProgress
  rw [later_phase]
  split <;> rfl

theorem onTimeElapsed_later (batch : UInt64) (s : Session) (d : Dialog) :
    (d.later k).onTimeElapsed batch (s.later k) = (d.onTimeElapsed batch s).later k := by
  have hbatch : (s.later k).batch = s.batch := rfl
  unfold onTimeElapsed
  rw [later_phase, hbatch]
  split <;> rfl

theorem onFinished_later (batch : UInt64) (result : BatchResult) (s : Session) (d : Dialog) :
    (d.later k).onFinished batch result (s.later k) = (d.onFinished batch result s).later k := by
  have hbatch : (s.later k).batch = s.batch := rfl
  unfold onFinished
  rw [later_phase, hbatch, hideTransmit_later]
  split
  · rfl
  · refine Turn.andThen_later fun d => ?_
    split
    · rw [close_later, Turn.andThen_later fun _ => rfl]
    · refine Turn.andThen_later (t := d.becomeReady _) fun d => ?_
      obtain ⟨_, _, session, _⟩ := d
      cases session <;> rfl

theorem onPanicked_later (task : TaskKind) (text : String) (d : Dialog) :
    (d.later k).onPanicked task text = (d.onPanicked task text).later k := by
  unfold onPanicked
  rw [later_phase]
  split
  · exact failLoad_later _ d
  · rw [hideTransmit_later, Turn.andThen_later fun _ => rfl]
  · rfl

theorem handle_later (now : Int64) (event : Event) (d : Dialog) :
    (d.later k).handle now (event.later k) = (d.handle now event).later k := by
  unfold handle
  cases hs : d.session with
  | none =>
    have hlater : (d.later k).session = none := by simp [later, hs]
    simp only [hlater]
    rfl
  | some s =>
    have hlater : (d.later k).session = some (s.later k) := by simp [later, hs]
    have htoken : (s.later k).token ≠ (event.later k).token ↔ s.token ≠ event.token :=
      not_congr SessionToken.later_eq_iff
    have hreport : (event.later k).report = event.report := rfl
    simp only [hlater, htoken, hreport]
    split
    · rfl
    · split
      · exact onLoaded_later now _ s d
      · exact onProgress_later _ _ d
      · exact onFinished_later _ _ s d
      · exact onTimeElapsed_later _ s d
      · exact onPanicked_later _ _ d

/-- A view under later tokens takes every operation as the view itself does. -/
theorem perform_later (now : Int64) (d : Dialog) (op : Operation) :
    (d.later k).perform now (op.later k) = (d.perform now op).later k := by
  cases op with
  | openOn source => exact congrArg (Reply.mk (.ok ())) (openOn_later source d)
  | cancel => exact congrArg (Reply.mk (.ok ())) (close_later d)
  | deliver event => exact congrArg (Reply.mk (.ok ())) (handle_later now event d)
  | fetch checked => exact fetch_later checked d
  | retry => exact retry_later d
  | setFilter filter =>
    refine d.whenReady_later fun s => congrArg (Reply.mk (.ok ())) ?_
    exact refresh_later now (d.within d.phase { s with filter })
  | setNaming naming =>
    refine d.whenReady_later fun s => congrArg (Reply.mk (.ok ())) ?_
    exact refresh_later now (d.within d.phase { s with naming })

end Dialog

end FeedDesk
