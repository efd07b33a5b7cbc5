import FeedDesk.Proofs.Desk.Exclusive

/-!
# Outcomes take effect once

The outcome of a load counts while the view is loading, and that of a batch while the batch is
being sent. Either ends the phase that it counts in, and only a later session or a later batch
comes to that phase again. So of all outcomes that are delivered for a load or a batch, be they
repeated, late or made up, one at most has an effect, and an outcome that is delivered twice does
what it does once.
-/
namespace FeedDesk

/-- Whether a report is the outcome of some work: what it came to, or that it broke off. -/
def Report.IsOutcome : Report → Prop
  | .loaded _ | .finished .. | .panicked .. => True
  | .progress .. | .timeElapsed _ => False

/-- An event at the wrong time: it names another batch than the last one of the session, or it ends
a load while the view is not loading, or a batch while none is being sent. -/
def Dialog.Untimely (d : Dialog) (event : Event) : Prop :=
  (∃ batch, event.report.batch? = some batch ∧ ∀ s, d.session = some s → s.batch ≠ batch) ∨
    event.report.ends? = some .load ∧ d.phase ≠ .loading ∨
    event.report.ends? = some .dispatch ∧ d.phase ≠ .dispatching

/-- The end of some work that had an effect on a view: the kind of the work, the session, and the
last batch that the session had begun. -/
structure Outcome where
  kind : TaskKind
  token : SessionToken
  batch : UInt64
  deriving DecidableEq, Repr

def Dialog.takes (now : Int64) (d : Dialog) : Operation → List Outcome
  | .deliver event =>
    match d.session, event.report.ends? with
    | some s, some kind => if d.handle now event = .idle d then [] else [⟨kind, s.token, s.batch⟩]
    | _, _ => []
  | _ => []

def Dialog.outcomes (d : Dialog) : List (Int64 × Operation) → List Outcome
  | [] => []
  | (now, op) :: rest => d.takes now op ++ (d.perform now op).turn.dialog.outcomes rest

def openingsAmong (ops : List (Int64 × Operation)) : Nat :=
  ops.foldr (fun timed n => timed.2.openings + n) 0

def Effect.beginsBatch : Effect → Bool
  | .start (.dispatch ..) => true
  | _ => false

/-! ## Events at the wrong time, and events that come again -/

section
variable {d : Dialog} {event : Event} {now : Int64}

theorem Dialog.not_heeds_of_idle (hl : d.phase ≠ .loading) (hd : d.phase ≠ .dispatching)
    (event : Event) : ¬ d.Heeds event := by
  rintro ⟨s, -, -, h⟩
  cases hp : d.phase with
  | loading => exact hl hp
  | dispatching => exact hd hp
  | closed | ready => simp [Awaits, hp] at h

/-- Work whose end a view awaits is what its phase is about, unless it is a timer. -/
theorem Dialog.Awaits.work {s : Session} {report : Report} {kind : TaskKind}
    (h : d.Awaits s report) (he : report.ends? = some kind) (hk : kind ≠ .timer) :
    d.phase.work? = some kind := by
  unfold Dialog.Awaits at h
  split at h
  next hp =>
    rw [hp, ← he]
    rfl
  next hp =>
    rw [hp, ← he]
    rfl
  next => cases he
  next hp =>
    rw [hp, ← he]
    rfl
  next => exact absurd (Option.some.inj he).symm hk
  next hp =>
    rw [hp, ← he]
    rfl
  next => exact h.elim

theorem Dialog.Awaits.batch {s : Session} {report : Report} {batch : UInt64}
    (h : d.Awaits s report) (hb : report.batch? = some batch) : s.batch = batch := by
  unfold Dialog.Awaits at h
  split at h
  next => cases hb
  next => cases hb
  next => cases hb
  next => exact h.trans (Option.some.inj hb)
  next => exact h.trans (Option.some.inj hb)
  next => cases hb
  next => exact h.elim

theorem Dialog.Untimely.unheeded (h : d.Untimely event) : ¬ d.Heeds event := by
  rintro ⟨s, hs, -, hawaits⟩
  rcases h with ⟨batch, hbatch, hne⟩ | ⟨hends, hp⟩ | ⟨hends, hp⟩
  · exact hne s hs (hawaits.batch hbatch)
  · have hwork := hawaits.work hends (by simp)
    cases hphase : d.phase <;> simp_all [Phase.work?]
  · have hwork := hawaits.work hends (by simp)
    cases hphase : d.phase <;> simp_all [Phase.work?]

/-- Once a view has heeded an outcome, it waits for nothing. -/
theorem Transition.rests {op : Operation} {r : Reply} (h : Transition now d op r)
    (hop : op = .deliver event) (ho : event.report.IsOutcome) (heeds : d.Heeds event) :
    r.turn.dialog.phase = .ready ∨ r.turn.dialog.phase = .closed := by
  cases h with
  | refused _ hne => exact absurd hne (hop ▸ id)
  | unheeded =>
    obtain rfl := Operation.deliver.inj hop
    contradiction
  | loadFailed | completed => exact .inr rfl
  | loaded | halted | brokenOff => exact .inl rfl
  | progressed | timeElapsed =>
    obtain rfl := Operation.deliver.inj hop
    exact ho.elim
  | _ => cases hop

/-- An outcome has no effect the second time, whether or not it had one the first time. -/
theorem Dialog.handle_outcome (ho : event.report.IsOutcome) :
    ¬ (d.handle now event).dialog.Heeds event := by
  by_cases heeds : d.Heeds event
  · have ht : Transition now d (.deliver event) ⟨.ok (), d.handle now event⟩ :=
      handle_transition event
    have hrests : (d.handle now event).dialog.phase = .ready ∨
        (d.handle now event).dialog.phase = .closed := ht.rests rfl ho heeds
    refine not_heeds_of_idle ?_ ?_ event
    · rcases hrests with h | h <;> simp [h]
    · rcases hrests with h | h <;> simp [h]
  · rw [handle_of_unheeded heeds]
    exact heeds

end

/-! ## Ends of work that had an effect -/

/-- If no two members of a list that satisfy a condition may be there together, one of them at
most is there. -/
theorem countP_le_one {α : Type} {R : α → α → Prop} {p : α → Bool} {l : List α}
    (h : l.Pairwise R) (hp : ∀ a b, p a = true → p b = true → ¬ R a b) : l.countP p ≤ 1 := by
  induction h with
  | nil => exact Nat.zero_le 1
  | @cons a l ha _ ih =>
    rw [List.countP_cons]
    split
    next hpa =>
      have hnone : l.countP p = 0 := by
        rw [List.countP_eq_zero]
        exact fun b hb hpb => hp a b hpa hpb (ha b hb)
      omega
    next => exact ih

/-- Whether two outcomes are the end of the same load or of the same batch. -/
def Outcome.Same (a b : Outcome) : Prop :=
  a.kind = b.kind ∧ a.token = b.token ∧ (a.kind = .dispatch → a.batch = b.batch)

/-- The work that an outcome ended is spent for a view, given how often the view was opened and how
many batches its last session has begun: it is of an earlier session or of an earlier batch, or the
phase of the view is not about it. -/
def Outcome.Spent (o : Outcome) (opened begun : Nat) (d : Dialog) : Prop :=
  ∃ n j, o.token = .nth n ∧ o.batch = .ofNat j ∧ (n < opened ∨ n = opened ∧ j ≤ begun ∧
    (o.kind = .dispatch ∧ j < begun ∨ d.phase.work? ≠ some o.kind))

section
variable {d : Dialog} {now : Int64} {op : Operation} {o : Outcome}

/-- What an outcome with an effect was the end of. -/
theorem Dialog.of_mem_takes (ho : o ∈ d.takes now op) :
    ∃ event s, op = .deliver event ∧ d.Heeds event ∧ d.session = some s ∧
      event.report.ends? = some o.kind ∧ o.token = s.token ∧ o.batch = s.batch := by
  cases op with
  | deliver event =>
    simp only [takes] at ho
    split at ho
    next s kind hs he =>
      split at ho
      · cases ho
      next hidle =>
        obtain rfl := List.mem_singleton.mp ho
        have heeds : d.Heeds event := by
          by_contra h
          exact hidle (handle_of_unheeded h)
        exact ⟨event, s, rfl, heeds, hs, he, rfl, rfl⟩
    · cases ho
  | openOn | setFilter | setNaming | fetch | retry | cancel => cases ho

theorem foldl_countBatch_of_not_started {effects : List Effect}
    (h : ∀ task, .start task ∉ effects) (begun : Nat) :
    effects.foldl countBatch begun = begun := by
  induction effects generalizing begun with
  | nil => rfl
  | cons effect effects ih =>
    have hrest : ∀ task, .start task ∉ effects := fun task hmem =>
      h task (List.mem_cons_of_mem _ hmem)
    cases effect with
    | start task => exact absurd List.mem_cons_self (h task)
    | host | abandonTasks => exact ih hrest begun

theorem foldl_countBatch_le (effects : List Effect) (begun : Nat) :
    effects.foldl countBatch begun ≤ begun + effects.countP Effect.beginsBatch := by
  induction effects generalizing begun with
  | nil => exact Nat.le_refl _
  | cons effect effects ih =>
    have hrest := ih (countBatch begun effect)
    have hfirst : countBatch begun effect ≤
        begun + if effect.beginsBatch = true then 1 else 0 := by
      rcases effect with _ | (_ | _ | _) | _ <;> simp [countBatch, Effect.beginsBatch]
    rw [List.foldl_cons, List.countP_cons]
    omega

theorem Dialog.takes_length (now : Int64) (d : Dialog) (op : Operation) :
    (d.takes now op).length ≤ 1 := by
  unfold takes
  split
  · split
    · split <;> simp
    · simp
  · simp

/-- A step that does not open the view begins the next batch of a ready session, or it begins
nothing. -/
theorem Transition.begins {r : Reply} (h : Transition now d op r) (hop : op.openings = 0)
    (begun : Nat) :
    d.phase = .ready ∧ r.turn.dialog.phase = .dispatching ∧
        r.turn.effects.foldl countBatch begun = begun + 1 ∨
      r.turn.effects.foldl countBatch begun = begun ∧
        ∀ kind, r.turn.dialog.phase.work? = some kind → d.phase.work? = some kind := by
  cases h with
  | refused | unopened | unchecked | unfailed | unheeded | progressed =>
    exact .inr ⟨rfl, fun _ h => h⟩
  | opened | reopened => cases hop
  | cancelled | loadFailed | completed =>
    exact .inr ⟨by simp [countBatch], by simp [Dialog.left, Phase.work?]⟩
  | filtered | renamed =>
    refine .inr ⟨?_, fun _ h => by rwa [Dialog.refresh_phase] at h⟩
    exact foldl_countBatch_of_not_started (fun task => not_started_refresh _ _) begun
  | fetched _ _ _ hp | retried _ _ hp => exact .inl ⟨hp, rfl, rfl⟩
  | loaded =>
    exact .inr ⟨by simp [Dialog.tableEffects, countBatch], by simp [Dialog.within, Phase.work?]⟩
  | timeElapsed _ hp => exact .inr ⟨rfl, fun _ h => hp ▸ h⟩
  | halted | brokenOff => exact .inr ⟨by simp [countBatch], by simp [Dialog.within, Phase.work?]⟩

/-! ## A run -/

structure Dialog.Traced (opened : Nat) (past : List Effect) (d : Dialog) : Prop where
  consistent : d.Consistent
  stamped : d.Stamped opened
  numbered : d.Numbered past

variable {opened : Nat} {past : List Effect} {r : Reply}

theorem Dialog.traced_create (settings : DialogSettings) : (create settings).Traced 0 [] where
  consistent := consistent_create settings
  stamped := stamped_create settings
  numbered := ⟨by simp [create], by simp [create]⟩

theorem Transition.traced (h : Transition now d op r) (hd : d.Traced opened past) :
    r.turn.dialog.Traced (opened + op.openings) (past ++ r.turn.effects) where
  consistent := h.consistent hd.consistent
  stamped := h.stamped hd.stamped
  numbered := h.numbered hd.consistent hd.numbered

/-- What an outcome of a load or a batch says when it has an effect. -/
theorem Dialog.Traced.of_mem_takes (hd : d.Traced opened past) (ho : o ∈ d.takes now op)
    (hk : o.kind = .load ∨ o.kind = .dispatch) :
    o.token = .nth opened ∧ o.batch = .ofNat (batchesBegun past) ∧
      d.phase.work? = some o.kind := by
  obtain ⟨event, s, -, ⟨s', hs', -, hawaits⟩, hs, hends, htoken, hbatch⟩ := d.of_mem_takes ho
  refine ⟨htoken.trans (hd.stamped.session s hs).1, hbatch.trans (hd.numbered.batch s hs), ?_⟩
  exact hawaits.work hends (by rcases hk with hk | hk <;> simp [hk])

/-- An outcome of spent work has no effect. -/
theorem Outcome.Spent.not_same {o' : Outcome} (h : o.Spent opened (batchesBegun past) d)
    (hd : d.Traced opened past) (hk : o.kind = .load ∨ o.kind = .dispatch)
    (hopened : opened < UInt64.size) (hbegun : batchesBegun past < UInt64.size)
    (ho' : o' ∈ d.takes now op) : ¬ o.Same o' := by
  rintro ⟨hkind, htoken, hbatch⟩
  obtain ⟨htoken', hbatch', hwork⟩ := hd.of_mem_takes ho' (hkind ▸ hk)
  obtain ⟨n, j, hn, hj, hspent⟩ := h
  have hsame : n = opened := by
    refine SessionToken.nth_injective ?_ hopened (by rw [← hn, htoken, htoken'])
    omega
  obtain hlt | ⟨-, hle, ⟨hdispatch, hlt⟩ | hrests⟩ := hspent
  · omega
  · have hnumber : UInt64.ofNat j = UInt64.ofNat (batchesBegun past) := by
      rw [← hj, hbatch hdispatch, hbatch']
    have := congrArg UInt64.toNat hnumber
    rw [UInt64.toNat_ofNat_of_lt' (by omega), UInt64.toNat_ofNat_of_lt' hbegun] at this
    omega
  · exact hrests (by rw [hwork, hkind])

theorem Outcome.Spent.step {begun : Nat} (h : o.Spent opened begun d)
    (ht : Transition now d op r) :
    o.Spent (opened + op.openings) (r.turn.effects.foldl countBatch begun) r.turn.dialog := by
  obtain ⟨n, j, hn, hj, hspent⟩ := h
  refine ⟨n, j, hn, hj, ?_⟩
  by_cases hop : op.openings = 0
  · rw [hop, Nat.add_zero]
    refine hspent.imp_right ?_
    rintro ⟨hopened, hle, hspent⟩
    rcases ht.begins hop begun with ⟨-, hp, hbegun⟩ | ⟨hbegun, hwork⟩
    · rw [hbegun, hp]
      refine ⟨hopened, by omega, ?_⟩
      by_cases hk : o.kind = .dispatch
      · exact .inl ⟨hk, by omega⟩
      · exact .inr fun h => hk (Option.some.inj h).symm
    · rw [hbegun]
      exact ⟨hopened, hle, hspent.imp_right fun hrests h => hrests (hwork _ h)⟩
  · refine .inl ?_
    omega

/-- When an outcome has an effect, the work that it ends is spent. -/
theorem Dialog.Traced.spent (hd : d.Traced opened past) (ht : Transition now d op r)
    (ho : o ∈ d.takes now op) (hk : o.kind = .load ∨ o.kind = .dispatch) :
    o.Spent (opened + op.openings) (batchesBegun (past ++ r.turn.effects)) r.turn.dialog := by
  obtain ⟨htoken, hbatch, hwork⟩ := hd.of_mem_takes ho hk
  obtain ⟨event, s, rfl, heeds, -, hends, -⟩ := d.of_mem_takes ho
  have houtcome : event.report.IsOutcome := by
    cases hr : event.report with
    | loaded | finished | panicked => trivial
    | progress | timeElapsed => rcases hk with hk | hk <;> simp [hr, hk, Report.ends?] at hends
  have hrests : r.turn.dialog.phase.work? = none := by
    rcases ht.rests rfl houtcome heeds with h | h <;> simp [h, Phase.work?]
  have hbegun : batchesBegun (past ++ r.turn.effects) = batchesBegun past := by
    rw [batchesBegun_append]
    rcases ht.begins rfl (batchesBegun past) with ⟨hp, -⟩ | ⟨h, -⟩
    · simp [hp, Phase.work?] at hwork
    · exact h
  refine ⟨opened, batchesBegun past, htoken, hbatch, .inr ⟨rfl, ?_, .inr ?_⟩⟩
  · exact Nat.le_of_eq hbegun.symm
  · simp [hrests]

end

namespace Dialog

variable {d : Dialog} {opened : Nat} {past : List Effect} {ops : List (Int64 × Operation)}

/-- No outcome that has an effect in a run ends work that was spent before. -/
theorem Traced.outcomes_fresh (hd : d.Traced opened past)
    (hopen : opened + openingsAmong ops < UInt64.size)
    (hbegun : batchesBegun past + (d.run ops).effects.countP Effect.beginsBatch < UInt64.size)
    {o : Outcome} (hk : o.kind = .load ∨ o.kind = .dispatch)
    (ho : o.Spent opened (batchesBegun past) d) : ∀ o' ∈ d.outcomes ops, ¬ o.Same o' := by
  induction ops generalizing d opened past with
  | nil => simp [outcomes]
  | cons timed ops ih =>
    obtain ⟨now, op⟩ := timed
    have ht : Transition now d op (d.perform now op) :=
      perform_transition hd.consistent.coherent op
    have hle := foldl_countBatch_le (d.perform now op).turn.effects (batchesBegun past)
    simp only [openingsAmong, List.foldr_cons, run, Turn.andThen, List.countP_append]
      at hopen hbegun ih
    intro o' ho'
    rcases List.mem_append.mp ho' with ho' | ho'
    · exact ho.not_same hd hk (by omega) (by omega) ho'
    · refine ih (ht.traced hd) (by omega) ?_ ?_ o' ho'
      · rw [batchesBegun_append]
        omega
      · rw [batchesBegun_append]
        exact ho.step ht

/-- No two outcomes that have an effect in a run are the end of the same load or batch. -/
theorem Traced.outcomes_pairwise (hd : d.Traced opened past)
    (hopen : opened + openingsAmong ops < UInt64.size)
    (hbegun : batchesBegun past + (d.run ops).effects.countP Effect.beginsBatch < UInt64.size) :
    (d.outcomes ops).Pairwise fun o o' =>
      o.kind = .load ∨ o.kind = .dispatch → ¬ o.Same o' := by
  induction ops generalizing d opened past with
  | nil => exact .nil
  | cons timed ops ih =>
    obtain ⟨now, op⟩ := timed
    have ht : Transition now d op (d.perform now op) :=
      perform_transition hd.consistent.coherent op
    have hle := foldl_countBatch_le (d.perform now op).turn.effects (batchesBegun past)
    simp only [openingsAmong, List.foldr_cons, run, Turn.andThen, List.countP_append]
      at hopen hbegun ih
    have hopen' : opened + op.openings + openingsAmong ops < UInt64.size := by
      simp only [openingsAmong]
      omega
    have hbegun' : batchesBegun (past ++ (d.perform now op).turn.effects) +
        ((d.perform now op).turn.dialog.run ops).effects.countP Effect.beginsBatch <
          UInt64.size := by
      rw [batchesBegun_append]
      omega
    refine List.pairwise_append.mpr ⟨?_, ih (ht.traced hd) hopen' hbegun', ?_⟩
    · rcases htakes : d.takes now op with _ | ⟨o, _ | ⟨o', rest⟩⟩
      · exact .nil
      · exact List.pairwise_singleton _ _
      · have hlength := takes_length now d op
        simp [htakes] at hlength
    · intro o ho o' ho' hk
      exact (ht.traced hd).outcomes_fresh hopen' hbegun' hk (hd.spent ht ho hk) o' ho'

end Dialog

/-- After any run of a view, with events of any kind, session and batch in any order and number,
one outcome at most had an effect for the load of each session, and one at most for each batch.
What comes at the wrong time has no effect, and an outcome that is handled twice does what it does
once. Sessions and batches are numbered with 64 bits, so this needs that fewer than `2 ^ 64` of
each are begun. -/
theorem Dialog.run_outcomes_once (settings : DialogSettings) (ops : List (Int64 × Operation))
    (hopen : openingsAmong ops < UInt64.size)
    (hbegun : ((create settings).run ops).effects.countP Effect.beginsBatch < UInt64.size) :
    (∀ token, ((create settings).outcomes ops).countP
        (fun o => o.kind = .load ∧ o.token = token) ≤ 1) ∧
      (∀ token batch, ((create settings).outcomes ops).countP
        (fun o => o.kind = .dispatch ∧ o.token = token ∧ o.batch = batch) ≤ 1) ∧
      (∀ now event, ((create settings).run ops).dialog.Untimely event →
        ((create settings).run ops).dialog.handle now event =
          .idle ((create settings).run ops).dialog) ∧
      ∀ now later event, event.report.IsOutcome →
        (((create settings).run ops).dialog.handle now event).andThen (·.handle later event) =
          ((create settings).run ops).dialog.handle now event := by
  have hpairwise : ((create settings).outcomes ops).Pairwise fun o o' =>
      o.kind = .load ∨ o.kind = .dispatch → ¬ o.Same o' := by
    refine (traced_create settings).outcomes_pairwise ?_ ?_
    · rwa [Nat.zero_add]
    · rwa [batchesBegun, List.foldl_nil, Nat.zero_add]
  refine ⟨fun token => ?_, fun token batch => ?_, ?_, ?_⟩
  · refine countP_le_one hpairwise fun a b ha hb h => ?_
    simp only [decide_eq_true_eq] at ha hb
    refine h (.inl ha.1) ⟨ha.1.trans hb.1.symm, ha.2.trans hb.2.symm, fun hd => ?_⟩
    simp [ha.1] at hd
  · refine countP_le_one hpairwise fun a b ha hb h => ?_
    simp only [decide_eq_true_eq] at ha hb
    exact h (.inr ha.1) ⟨ha.1.trans hb.1.symm, ha.2.1.trans hb.2.1.symm,
      fun _ => ha.2.2.trans hb.2.2.symm⟩
  · exact fun now event h => handle_of_unheeded h.unheeded
  · intro now later event ho
    rw [Turn.andThen, handle_of_unheeded (handle_outcome ho)]
    simp [Turn.idle]

def repeatedRun : List (Int64 × Operation) :=
  [(0, .openOn default), (0, .deliver ⟨.nth 1, .loaded (.ok [{ url := "a" }])⟩),
    (0, .deliver ⟨.nth 1, .loaded (.ok [])⟩), (0, .deliver ⟨.nth 1, .panicked .load "late"⟩),
    (0, .fetch ["a"]), (0, .deliver ⟨.nth 1, .panicked .dispatch "broken"⟩),
    (0, .deliver ⟨.nth 1, .finished 1 (.ok [])⟩), (0, .fetch ["a"]),
    (0, .deliver ⟨.nth 1, .finished 1 (.ok [])⟩), (0, .deliver ⟨.nth 1, .finished 2 (.ok [])⟩),
    (0, .deliver ⟨.nth 1, .finished 2 (.ok [])⟩)]

theorem Dialog.repeated_outcomes_once :
    openingsAmong repeatedRun < UInt64.size ∧
      ((create ⟨25, 300, 0⟩).run repeatedRun).effects.countP Effect.beginsBatch < UInt64.size ∧
      (create ⟨25, 300, 0⟩).outcomes repeatedRun =
        [⟨.load, .nth 1, 0⟩, ⟨.dispatch, .nth 1, 1⟩, ⟨.dispatch, .nth 1, 2⟩] ∧
      ((create ⟨25, 300, 0⟩).outcomes repeatedRun).countP
        (fun o => o.kind = .dispatch ∧ o.token = .nth 1 ∧ o.batch = 1) ≤ 1 ∧
      ((create ⟨25, 300, 0⟩).run repeatedRun).dialog.handle 0 ⟨.nth 1, .finished 2 (.ok [])⟩ =
        .idle ((create ⟨25, 300, 0⟩).run repeatedRun).dialog := by
  have hopen : openingsAmong repeatedRun < UInt64.size := by decide
  have hbegun : ((create ⟨25, 300, 0⟩).run repeatedRun).effects.countP Effect.beginsBatch <
      UInt64.size := by decide
  obtain ⟨-, hbatch, huntimely, -⟩ := run_outcomes_once ⟨25, 300, 0⟩ repeatedRun hopen hbegun
  refine ⟨hopen, hbegun, rfl, hbatch (.nth 1) 1, huntimely 0 _ (.inr (.inr ⟨rfl, ?_⟩))⟩
  decide

end FeedDesk
