import FeedDesk.Proofs.Desk.Exclusive

/-!
# The way out of a busy view

A view that loads has its load under way, or the event at the end of it waits; a view that
dispatches has its batch under way, or the event at the end of that waits. The events of others do
not matter, whatever they are: one that ends what the view waits for is never passed over, and no
other takes the task or the event away. So a busy view is never stuck as long as somebody listens
and no event is thrown away.
-/
namespace FeedDesk

/-- Whether an event ends work of a kind for a session, and not that of another batch. -/
def Event.Ends (token : SessionToken) (kind : TaskKind) (batch : Option UInt64) (e : Event) :
    Prop :=
  e.token = token ∧ e.report.ends? = some kind ∧
    ∀ named, e.report.batch? = some named → batch = some named

/-- Whether work of a kind is under way for a session and a batch, or the event that ends it
waits. -/
def Outstanding (token : SessionToken) (kind : TaskKind) (batch : Option UInt64)
    (tasks : List Running) (queue : List Event) : Prop :=
  (∃ t ∈ tasks, t.activity.token = token ∧ t.activity.kind = kind ∧ t.activity.batch? = batch) ∨
    ∃ e ∈ queue, e.Ends token kind batch

/-- What a busy view waits for is outstanding: the load of its session while it loads, and the
batch that its session sent last while it dispatches. -/
structure Dialog.WayOut (d : Dialog) (tasks : List Running) (queue : List Event) : Prop where
  loading : ∀ s, d.session = some s → d.phase = .loading →
    Outstanding s.token .load none tasks queue
  dispatching : ∀ s, d.session = some s → d.phase = .dispatching →
    Outstanding s.token .dispatch (some s.batch) tasks queue

namespace Outstanding

variable {token : SessionToken} {kind : TaskKind} {batch : Option UInt64} {tasks : List Running}
  {queue : List Event}

/-- An event that ends nothing of the work may be taken from the queue. -/
theorem dequeue {e : Event} (h : Outstanding token kind batch tasks (e :: queue))
    (he : ¬ e.Ends token kind batch) : Outstanding token kind batch tasks queue := by
  rcases h with h | ⟨e', hmem, hends⟩
  · exact .inl h
  · rcases List.mem_cons.mp hmem with rfl | hmem
    · exact absurd hends he
    · exact .inr ⟨e', hmem, hends⟩

theorem enqueue {events : List Event} (h : Outstanding token kind batch tasks queue) :
    Outstanding token kind batch tasks (events ++ queue) :=
  h.imp_right fun ⟨e, hmem, hends⟩ => ⟨e, List.mem_append_right _ hmem, hends⟩

/-- Work stays outstanding when a task goes on: if it is the task of the work then it waits again
or reports the end. -/
theorem absorb {σ : Type} {burst : Burst σ} {index : Nat} {task : Running}
    (h : Outstanding token kind batch tasks queue) (hget : tasks[index]? = some task)
    (hw : burst.Works task.activity.token task.activity.kind)
    (hb : burst.KeepsTo task.activity.batch?) :
    Outstanding token kind batch (tasks.eraseIdx index ++ burst.next.toList)
      (queue ++ burst.events) := by
  rcases h with ⟨t, hmem, htoken, hkind, hbatch⟩ | ⟨e, hmem, hends⟩
  · rw [← (perm_eraseIdx hget).mem_iff, List.mem_cons] at hmem
    rcases hmem with rfl | hmem
    · cases hw with
      | waits next hn ht hk =>
        have hnext : next ∈ burst.next.toList := by simp [hn]
        exact .inl ⟨next, List.mem_append_right _ hnext, ht.trans htoken, hk.trans hkind,
          (hb.next next hnext).trans hbatch⟩
      | ends early last hn he _ ht hk =>
        have hlast : last ∈ burst.events := by simp [he]
        refine .inr ⟨last, List.mem_append_right _ hlast, ht.trans htoken, hkind ▸ hk, ?_⟩
        exact hbatch ▸ hb.events last hlast
    · exact .inl ⟨t, List.mem_append_left _ hmem, htoken, hkind, hbatch⟩
  · exact .inr ⟨e, List.mem_append_left _ hmem, hends⟩

end Outstanding

/-! ## Steps of the view -/

section
variable {d : Dialog} {s : Session} {e : Event}

/-- The end of its load is heeded by a view that loads. -/
theorem Event.Ends.heeded_loading (h : e.Ends s.token .load none) (hs : d.session = some s)
    (hp : d.phase = .loading) : d.Heeds e := by
  obtain ⟨htoken, hends, -⟩ := h
  refine ⟨s, hs, htoken.symm, ?_⟩
  cases hr : e.report with
  | loaded result => simp [Dialog.Awaits, hp]
  | panicked kind text =>
    rw [hr] at hends
    obtain rfl : kind = .load := Option.some.inj hends
    simp [Dialog.Awaits, hp]
  | progress | finished | timeElapsed =>
    rw [hr] at hends
    cases hends

/-- The end of the batch that was sent last is heeded by a view that dispatches. -/
theorem Event.Ends.heeded_dispatching (h : e.Ends s.token .dispatch (some s.batch))
    (hs : d.session = some s) (hp : d.phase = .dispatching) : d.Heeds e := by
  obtain ⟨htoken, hends, hnamed⟩ := h
  refine ⟨s, hs, htoken.symm, ?_⟩
  cases hr : e.report with
  | finished batch result =>
    have hbatch : s.batch = batch := Option.some.inj (hnamed batch (by rw [hr]; rfl))
    simp [Dialog.Awaits, hp, hbatch]
  | panicked kind text =>
    rw [hr] at hends
    obtain rfl : kind = .dispatch := Option.some.inj hends
    simp [Dialog.Awaits, hp]
  | loaded | progress | timeElapsed =>
    rw [hr] at hends
    cases hends

end

namespace Dialog.WayOut

variable {d : Dialog} {tasks : List Running} {queue : List Event} {s : Session}

/-- A view that is not busy needs no way out. -/
theorem of_idle (hl : d.phase ≠ .loading) (hd : d.phase ≠ .dispatching) : d.WayOut tasks queue :=
  ⟨fun _ _ h => absurd h hl, fun _ _ h => absurd h hd⟩

theorem enqueue {events : List Event} (h : d.WayOut tasks queue) :
    d.WayOut tasks (events ++ queue) :=
  ⟨fun s hs hp => (h.loading s hs hp).enqueue, fun s hs hp => (h.dispatching s hs hp).enqueue⟩

/-- An event that the view does not heed may be taken from the queue. -/
theorem dequeue {e : Event} (h : d.WayOut tasks (e :: queue)) (he : ¬ d.Heeds e) :
    d.WayOut tasks queue where
  loading s hs hp := (h.loading s hs hp).dequeue fun hends => he (hends.heeded_loading hs hp)
  dispatching s hs hp :=
    (h.dispatching s hs hp).dequeue fun hends => he (hends.heeded_dispatching hs hp)

theorem hear {d' : Dialog} {s' : Session} {e : Event} (h : d.WayOut tasks (e :: queue))
    (hp : d.phase = .dispatching) (hs : d.session = some s) (hp' : d'.phase = .dispatching)
    (hs' : d'.session = some s') (ht : s'.token = s.token) (hb : s'.batch = s.batch)
    (he : e.report.ends? ≠ some .dispatch) : d'.WayOut tasks queue where
  loading _ _ h := by simp [hp'] at h
  dispatching s'' hs'' _ := by
    obtain rfl : s' = s'' := Option.some.inj (hs'.symm.trans hs'')
    rw [ht, hb]
    exact (h.dispatching s hs hp).dequeue fun hends => he hends.2.1

theorem absorb {σ : Type} {burst : Burst σ} {index : Nat} {task : Running}
    (h : d.WayOut tasks queue) (hget : tasks[index]? = some task)
    (hw : burst.Works task.activity.token task.activity.kind)
    (hb : burst.KeepsTo task.activity.batch?) :
    d.WayOut (tasks.eraseIdx index ++ burst.next.toList) (queue ++ burst.events) :=
  ⟨fun s hs hp => (h.loading s hs hp).absorb hget hw hb,
    fun s hs hp => (h.dispatching s hs hp).absorb hget hw hb⟩

theorem entered (d : Dialog) (source : FeedSource) (time : Nat) (tasks : List Running)
    (queue : List Event) : (d.entered source).WayOut
      ((source.opening d.lastToken.next).foldl (tasksAfter time) tasks) queue where
  loading := by
    rintro _ ⟨⟩ -
    rw [foldl_tasksAfter_opening]
    exact .inl ⟨_, List.mem_append_right _ (List.mem_singleton_self _), rfl, rfl, rfl⟩
  dispatching _ _ h := by simp [Dialog.entered] at h

theorem send {s' : Session} (d : Dialog) (ht : s'.token = s.token) (hb : s'.batch = s.batch + 1)
    (jobs : JobQueue) (time : Nat) (tasks : List Running) (queue : List Event) :
    (d.within .dispatching s').WayOut ((d.batchEffects s jobs).foldl (tasksAfter time) tasks)
      queue where
  loading _ _ h := by simp [within] at h
  dispatching := by
    rintro _ ⟨⟩ -
    rw [foldl_tasksAfter_batch, ht, hb]
    exact .inl ⟨_, List.mem_append_right _ (List.mem_cons_of_mem _ (List.mem_singleton_self _)),
      rfl, rfl, rfl⟩

end Dialog.WayOut

theorem Operation.NeedsReady.handled {op : Operation} (h : op.NeedsReady) : op.handled = [] := by
  cases op with
  | openOn | cancel | deliver => exact h.elim
  | setFilter | setNaming | fetch | retry => rfl

/-- Every step keeps the way out, be the event that it hears from the queue or not. -/
theorem Transition.wayOut {now : Int64} {d : Dialog} {tasks : List Running} {queue : List Event}
    {op : Operation} {r : Reply} (h : Transition now d op r)
    (hw : d.WayOut tasks (op.handled ++ queue)) (time : Nat) :
    r.turn.dialog.WayOut (r.turn.effects.foldl (tasksAfter time) tasks) queue := by
  cases h with
  | refused op hop =>
    rw [hop.handled] at hw
    exact hw
  | unopened | unchecked | unfailed => exact hw
  | unheeded event he => exact hw.dequeue he
  | opened source => exact .entered d source time tasks queue
  | reopened source s =>
    rw [List.foldl_append]
    exact .entered d source time _ queue
  | cancelled | loadFailed | completed =>
    exact .of_idle (by simp [Dialog.left]) (by simp [Dialog.left])
  | filtered _ s hp | renamed _ s hp =>
    have hready {s' : Session} : ((d.within d.phase s').refresh now).dialog.phase = .ready :=
      (Dialog.refresh_phase _ now).trans hp
    exact .of_idle (by simp [hready]) (by simp [hready])
  | fetched _ jobs s | retried _ s => exact .send d (by rfl) (by rfl) _ time tasks queue
  | loaded | halted | brokenOff =>
    exact .of_idle (by simp [Dialog.within]) (by simp [Dialog.within])
  | progressed _ _ s hp hs =>
    exact hw.hear hp hs hp hs rfl rfl (by simp [Report.ends?])
  | timeElapsed s hp hs =>
    exact hw.hear hp hs (by rfl) (by rfl) (by rfl) (by rfl) (by simp [Report.ends?])

/-! ## Desks -/

namespace Desk

variable {σ : Type} {remote : Remote σ} {desk : Desk σ}

/-- A desk whose view has a session as long as it is open, and its way out as long as somebody
listens. -/
structure Unstuck (desk : Desk σ) : Prop where
  coherent : desk.dialog.Coherent
  wayOut : desk.listening = true → desk.dialog.WayOut desk.tasks desk.queue

theorem unstuck_create (settings : DialogSettings) (wallClock : Int64) (s : σ) :
    (create settings wallClock s).Unstuck where
  coherent := Dialog.coherent_create settings
  wayOut _ := .of_idle (by simp [create, Dialog.create]) (by simp [create, Dialog.create])

theorem Unstuck.after (h : desk.Unstuck) (op : Operation) : (desk.after op).Unstuck := by
  obtain ⟨r, ht, -, heq⟩ := after_transition h.coherent op
  rw [heq]
  exact ⟨ht.coherent h.coherent, fun hl => ht.wayOut (h.wayOut hl).enqueue desk.time⟩

theorem Unstuck.handleNext (h : desk.Unstuck) : desk.handleNext.Unstuck := by
  rcases handleNext_transition h.coherent with ⟨-, heq⟩ | ⟨event, rest, r, hq, ht, heq⟩
  · rw [heq]
    exact h
  · have hw := h.wayOut
    rw [hq] at hw
    rw [heq]
    exact ⟨ht.coherent h.coherent, fun hl => ht.wayOut (hw hl) desk.time⟩

theorem Unstuck.goOn (h : desk.Unstuck) (index : Nat) : (desk.goOn remote index).Unstuck := by
  rcases goOn_resume remote desk index with ⟨-, heq⟩ | ⟨task, time, hget, heq⟩
  · rw [heq]
    exact h
  · have hw : (task.activity.resume remote time desk.remote).Works task.activity.token
        task.activity.kind := task.activity.resume_works desk.remote
    have hb : (task.activity.resume remote time desk.remote).KeepsTo task.activity.batch? :=
      task.activity.resume_keepsTo desk.remote
    rw [heq]
    refine ⟨h.coherent, fun hl => ?_⟩
    replace hl : desk.listening = true := hl
    simp only [absorb, hl, if_true]
    exact (h.wayOut hl).absorb hget hw hb

theorem Unstuck.move {m : Move} (h : desk.Unstuck) (hm : m ≠ .dismissNext) :
    (desk.move remote m).Unstuck := by
  cases m with
  | operate op => exact h.after op
  | handleNext => exact h.handleNext
  | dismissNext => exact absurd rfl hm
  | goOn index => exact h.goOn index
  | settle => exact settle_induction (fun _ h => h.handleNext) (fun _ i h => h.goOn i) h
  | pass => exact ⟨h.coherent, h.wayOut⟩
  | stopListening => exact ⟨h.coherent, fun hl => by cases hl⟩

theorem Unstuck.moves {ms : List Move} (h : desk.Unstuck) (hkept : ∀ m ∈ ms, m ≠ .dismissNext) :
    (desk.moves remote ms).Unstuck := by
  induction ms generalizing desk with
  | nil => exact h
  | cons m ms ih =>
    obtain ⟨hm, hms⟩ := List.forall_mem_cons.mp hkept
    exact ih (h.move hm) hms

/-- A busy view has something to go on with. -/
theorem Unstuck.goes_on (h : desk.Unstuck) (hl : desk.listening = true)
    (hbusy : desk.dialog.isBusy = true) : desk.queue ≠ [] ∨ desk.tasks ≠ [] := by
  have hopen : desk.dialog.phase ≠ .closed := by
    intro hp
    simp [Dialog.isBusy, hp] at hbusy
  obtain ⟨s, hs⟩ := h.coherent.exists_session hopen
  have hout : ∃ kind batch, Outstanding s.token kind batch desk.tasks desk.queue := by
    cases hp : desk.dialog.phase with
    | loading => exact ⟨_, _, (h.wayOut hl).loading s hs hp⟩
    | dispatching => exact ⟨_, _, (h.wayOut hl).dispatching s hs hp⟩
    | closed | ready => simp [Dialog.isBusy, hp] at hbusy
  obtain ⟨_, _, ⟨t, ht, -⟩ | ⟨e, he, -⟩⟩ := hout
  · exact .inr (List.ne_nil_of_mem ht)
  · exact .inl (List.ne_nil_of_mem he)

end Desk

end FeedDesk
