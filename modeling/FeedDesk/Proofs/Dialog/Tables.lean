import FeedDesk.Proofs.Dialog.Mirror

/-!
# The table of a session

A session computes its table when its items are loaded and whenever its filter or its naming
changes. Whether names differ it does not compute anew: it remembers what the first table said. As
the first table said it of all items, and the items of a session do not change, the table is
nevertheless the plain table of the items under the last filter and the last naming.
-/
namespace FeedDesk

def HostCall.isTable : HostCall → Bool
  | .table .. => true
  | _ => false

def Turn.tables (t : Turn) : Bool := (hostCallsOf t.effects).any HostCall.isTable

/-- The time at which a view last computed a table, after a run. Before the run it was `last`. -/
def Dialog.tabledAt (d : Dialog) (last : Option Int64) : List (Int64 × Operation) → Option Int64
  | [] => last
  | (now, op) :: rest =>
    let t := (d.perform now op).turn
    t.dialog.tabledAt (if t.tables then some now else last) rest

/-- Whether an operation changes the filter or the naming. -/
def Operation.IsChange : Operation → Prop
  | .setFilter _ | .setNaming _ => True
  | _ => False

def Operation.filterAfter (filter : StatusFilter) : Operation → StatusFilter
  | .setFilter f => f
  | _ => filter

def Operation.namingAfter (naming : Naming) : Operation → Naming
  | .setNaming n => n
  | _ => naming

/-- The last filter of some operations, `filter` if they set none. -/
def lastFilter (filter : StatusFilter) (ops : List Operation) : StatusFilter :=
  ops.foldl Operation.filterAfter filter

def lastNaming (naming : Naming) (ops : List Operation) : Naming :=
  ops.foldl Operation.namingAfter naming

def Dialog.runAt (d : Dialog) (now : Int64) (ops : List Operation) : Dialog :=
  (d.run (ops.map fun op => (now, op))).dialog

/-- A session that shows some items as if nothing was remembered. -/
structure Session.Plain (s : Session) (items : List Item) (clock : Clock) : Prop where
  loaded : s.items = some items
  shown : s.projection = some (.ofItems items s.filter s.naming clock)
  remembered : s.latch = some (items.any Item.namesDiffer)

/-- A view with a table shows its items plainly, as of the time at which it last computed a
table. -/
def Dialog.Tabled (last : Option Int64) (d : Dialog) : Prop :=
  ∀ s, d.session = some s → d.phase = .ready ∨ d.phase = .dispatching →
    ∃ items now, last = some now ∧ s.Plain items (d.clock now)

/-! ## Steps of the view -/

/-- What is remembered is nothing, or what would be computed. -/
theorem Session.plain_shown {s : Session} {items : List Item}
    (h : s.latch = none ∨ s.latch = some (items.any Item.namesDiffer)) (clock : Clock) :
    (s.shown items clock).Plain items clock := by
  have hdiffer : s.latch.getD (items.any Item.namesDiffer) = items.any Item.namesDiffer := by
    rcases h with h | h <;> rw [h] <;> rfl
  have hplain : (Projection.ofItems items s.filter s.naming clock).namesDiffer =
      items.any Item.namesDiffer := rfl
  constructor
  · rfl
  · simp only [shown, tabled, Projection.latched, hplain, hdiffer]
    rfl
  · simp only [shown, tabled, Projection.latched, NamesLatch.set, hplain, hdiffer]

@[simp] theorem any_isTable_signOff (s : Session) :
    (hostCallsOf s.signOff).any HostCall.isTable = false := by
  unfold Session.signOff
  split <;> rfl

namespace Dialog.Tabled

variable {last : Option Int64} {d : Dialog} {s s' : Session}

/-- A view without a table has nothing to show. -/
theorem of_blank (hr : d.phase ≠ .ready) (hd : d.phase ≠ .dispatching) : d.Tabled last :=
  fun _ _ h => absurd h (not_or.mpr ⟨hr, hd⟩)

theorem within (h : d.Tabled last) (hs : d.session = some s)
    (hp : d.phase = .ready ∨ d.phase = .dispatching) (phase : Phase)
    (hkeep : ∀ items clock, s.Plain items clock → s'.Plain items clock) :
    (d.within phase s').Tabled last := by
  rintro _ ⟨⟩ -
  obtain ⟨items, now, hlast, hplain⟩ := h s hs hp
  exact ⟨items, now, hlast, hkeep _ _ hplain⟩

theorem refreshed (h : d.Tabled last) (hs : d.session = some s) (hp : d.phase = .ready)
    (hi : s'.items = s.items) (hl : s'.latch = s.latch) (now : Int64) :
    ((d.within d.phase s').refresh now).dialog.Tabled
      (if ((d.within d.phase s').refresh now).tables then some now else last) := by
  obtain ⟨items, _, -, hplain⟩ := h s hs (.inl hp)
  rw [refresh_of_items rfl (hi.trans hplain.loaded)]
  rintro _ ⟨⟩ -
  exact ⟨items, now, rfl, Session.plain_shown (.inr (hl.trans hplain.remembered)) _⟩

end Dialog.Tabled

theorem Transition.tabled {now : Int64} {last : Option Int64} {d : Dialog} {op : Operation}
    {r : Reply} (h : Transition now d op r) (hd : d.Consistent) (ht : d.Tabled last) :
    r.turn.dialog.Tabled (if r.turn.tables then some now else last) := by
  cases h with
  | refused | unopened | unchecked | unfailed | unheeded | progressed => exact ht
  | opened | reopened =>
    exact .of_blank (by simp [Dialog.entered]) (by simp [Dialog.entered])
  | cancelled | loadFailed | completed =>
    exact .of_blank (by simp [Dialog.left]) (by simp [Dialog.left])
  | filtered _ s hp hs | renamed _ s hp hs => exact ht.refreshed hs hp (by rfl) (by rfl) now
  | fetched _ _ s hp hs | retried _ s hp hs =>
    exact ht.within hs (.inl hp) _ fun _ _ h => ⟨h.loaded, h.shown, h.remembered⟩
  | loaded items s hp hs =>
    have hblank := (hd.session_fits s hs).blank hp
    rintro _ ⟨⟩ -
    exact ⟨items, now, rfl, Session.plain_shown (.inl hblank.2.2.1) _⟩
  | timeElapsed s hp hs =>
    exact ht.within hs (.inr hp) _ fun _ _ h => ⟨h.loaded, h.shown, h.remembered⟩
  | halted _ s hp hs | brokenOff _ s hp hs =>
    simp only [Turn.tables, hostCallsOf_append, List.any_append, any_isTable_signOff]
    exact ht.within hs (.inr hp) _ fun _ _ h => ⟨h.loaded, h.shown, h.remembered⟩

/-! ## Runs -/

theorem Dialog.tabled_run {d : Dialog} {last : Option Int64} (hd : d.Consistent)
    (ht : d.Tabled last) (ops : List (Int64 × Operation)) :
    (d.run ops).dialog.Tabled (d.tabledAt last ops) := by
  induction ops generalizing d last with
  | nil => exact ht
  | cons timed rest ih =>
    obtain ⟨now, op⟩ := timed
    have hstep : Transition now d op (d.perform now op) := perform_transition hd.coherent op
    exact ih (hstep.consistent hd) (hstep.tabled hd ht)

/-- A table was computed at the time of one of the operations. -/
theorem Dialog.tabledAt_eq {d : Dialog} {last : Option Int64} {ops : List (Int64 × Operation)}
    {time : Int64} (h : d.tabledAt last ops = some time) :
    last = some time ∨ ∃ timed ∈ ops, timed.1 = time := by
  induction ops generalizing d last with
  | nil => exact .inl h
  | cons timed rest ih =>
    obtain ⟨now, op⟩ := timed
    rcases ih h with hlast | ⟨timed, hmem, htime⟩
    · split at hlast
      · exact .inr ⟨(now, op), List.mem_cons_self, Option.some.inj hlast⟩
      · exact .inl hlast
    · exact .inr ⟨timed, List.mem_cons_of_mem _ hmem, htime⟩

theorem Dialog.settings_run {d : Dialog} (hd : d.Coherent) (ops : List (Int64 × Operation)) :
    (d.run ops).dialog.settings = d.settings := by
  induction ops generalizing d with
  | nil => rfl
  | cons timed rest ih =>
    obtain ⟨now, op⟩ := timed
    have hstep : Transition now d op (d.perform now op) := perform_transition hd op
    exact (ih (hstep.coherent hd)).trans hstep.settings_eq

/-! ## Changes of filter and naming -/

def Dialog.ReadyWith (items : List Item) (filter : StatusFilter) (naming : Naming) (d : Dialog) :
    Prop :=
  d.phase = .ready ∧ ∃ s, d.session = some s ∧ s.items = some items ∧ s.filter = filter ∧
    s.naming = naming

section
variable {d : Dialog} {items : List Item} {filter : StatusFilter} {naming : Naming} {now : Int64}

theorem Dialog.ReadyWith.change {op : Operation} (h : d.ReadyWith items filter naming)
    (hop : op.IsChange) : ((d.perform now op).turn.dialog).ReadyWith items
      (op.filterAfter filter) (op.namingAfter naming) := by
  obtain ⟨hp, s, hs, hi, rfl, rfl⟩ := h
  cases op with
  | setFilter filter =>
    rw [perform, setFilter, whenReady_of_ready hp hs]
    have hi' : ({ s with filter } : Session).items = some items := hi
    rw [refresh_of_items rfl hi']
    exact ⟨hp, _, rfl, rfl, rfl, rfl⟩
  | setNaming naming =>
    rw [perform, setNaming, whenReady_of_ready hp hs]
    have hi' : ({ s with naming } : Session).items = some items := hi
    rw [refresh_of_items rfl hi']
    exact ⟨hp, _, rfl, rfl, rfl, rfl⟩
  | openOn | fetch | retry | cancel | deliver => exact hop.elim

/-- A ready view takes every change, and the last ones count. -/
theorem Dialog.ReadyWith.runAt (h : d.ReadyWith items filter naming) {ops : List Operation}
    (hops : ∀ op ∈ ops, op.IsChange) :
    (d.runAt now ops).ReadyWith items (lastFilter filter ops) (lastNaming naming ops) := by
  induction ops generalizing d filter naming with
  | nil => exact h
  | cons op rest ih =>
    obtain ⟨hop, hrest⟩ := List.forall_mem_cons.mp hops
    exact ih (h.change hop) hrest

/-- A view that is not ready takes no change. -/
theorem Dialog.runAt_of_busy (hp : d.phase ≠ .ready) {ops : List Operation}
    (hops : ∀ op ∈ ops, op.IsChange) : d.runAt now ops = d := by
  induction ops with
  | nil => rfl
  | cons op rest ih =>
    obtain ⟨hop, hrest⟩ := List.forall_mem_cons.mp hops
    have hstay : (d.perform now op).turn.dialog = d := by
      cases op with
      | setFilter | setNaming =>
        simp only [perform, setFilter, setNaming, whenReady_of_ne hp]
        rfl
      | openOn | fetch | retry | cancel | deliver => exact hop.elim
    change (d.perform now op).turn.dialog.runAt now rest = d
    rw [hstay]
    exact ih hrest

end

/-- After changes at the time at which a ready view has last computed its table, the table is that
of its items under the last filter and the last naming. -/
theorem Dialog.projection_runAt {d : Dialog} {now : Int64} {items : List Item}
    {filter : StatusFilter} {naming : Naming} (hd : d.Consistent) (ht : d.Tabled (some now))
    (h : d.ReadyWith items filter naming) {ops : List Operation}
    (hops : ∀ op ∈ ops, op.IsChange) :
    (d.runAt now ops).session.bind Session.projection =
      some (.ofItems items (lastFilter filter ops) (lastNaming naming ops) (d.clock now)) := by
  have hready : (d.runAt now ops).ReadyWith items (lastFilter filter ops) (lastNaming naming ops) :=
    h.runAt hops
  obtain ⟨hp, s, hs, hi, hfilter, hnaming⟩ := hready
  obtain ⟨items', time, htime, hplain⟩ := tabled_run hd ht _ s hs (.inl hp)
  have hnow : time = now := by
    rcases tabledAt_eq htime with h | ⟨timed, hmem, rfl⟩
    · exact (Option.some.inj h).symm
    · obtain ⟨op, -, rfl⟩ := List.mem_map.mp hmem
      rfl
  obtain rfl : items' = items := Option.some.inj (hplain.loaded.symm.trans hi)
  rw [hs, Option.bind_some, hplain.shown, hfilter, hnaming, clock, settings_run hd.coherent, hnow,
    clock]

/-- After any run of a view whose items are loaded, the table of its session is the plain table of
the items under the filter and the naming of the session, as of the time at which it was last
computed, and it says that names differ if those of some item do. In a run at one time, changes of
filter and naming come to the same table whenever the last ones are the same. -/
theorem Dialog.run_projection (settings : DialogSettings) (ops : List (Int64 × Operation))
    (s : Session) (hs : ((create settings).run ops).dialog.session = some s)
    (hp : ((create settings).run ops).dialog.phase = .ready ∨
      ((create settings).run ops).dialog.phase = .dispatching) :
    (∃ items now, (create settings).tabledAt none ops = some now ∧
      s.Plain items ⟨now, settings.zone⟩ ∧
      ∀ p, s.projection = some p →
        (p.namesDiffer = true ↔ ∃ item ∈ items, item.filename ≠ item.title)) ∧
    ∀ now, (∀ timed ∈ ops, timed.1 = now) → ∀ a b : List Operation,
      (∀ op ∈ a, op.IsChange) → (∀ op ∈ b, op.IsChange) →
      lastFilter s.filter a = lastFilter s.filter b →
      lastNaming s.naming a = lastNaming s.naming b →
      (((create settings).run ops).dialog.runAt now a).session.bind Session.projection =
        (((create settings).run ops).dialog.runAt now b).session.bind Session.projection := by
  have hd : ((create settings).run ops).dialog.Consistent := by
    refine run_create_induction (P := fun _ d => d.Consistent) ?_ settings
      (consistent_create settings) ops
    exact fun _ _ _ _ _ ht _ h => ht.consistent h
  have ht : ((create settings).run ops).dialog.Tabled ((create settings).tabledAt none ops) :=
    tabled_run (consistent_create settings) (.of_blank (by simp [create]) (by simp [create])) ops
  obtain ⟨items, time, htime, hplain⟩ := ht s hs hp
  constructor
  · refine ⟨items, time, htime, ?_, fun p hshown => ?_⟩
    · rw [clock, settings_run (coherent_create settings)] at hplain
      exact hplain
    · obtain rfl := Option.some.inj (hplain.shown.symm.trans hshown)
      simp [Projection.ofItems, Item.namesDiffer]
  · intro now hclock a b ha hb hfilter hnaming
    have hnow : time = now := by
      rcases tabledAt_eq htime with h | ⟨timed, hmem, rfl⟩
      · cases h
      · exact hclock timed hmem
    rw [htime, hnow] at ht
    rcases hp with hp | hp
    · have hready : ((create settings).run ops).dialog.ReadyWith items s.filter s.naming :=
        ⟨hp, s, hs, hplain.loaded, rfl, rfl⟩
      rw [projection_runAt hd ht hready ha, projection_runAt hd ht hready hb, hfilter, hnaming]
    · rw [runAt_of_busy (by simp [hp]) ha, runAt_of_busy (by simp [hp]) hb]

def changedRun : List (Int64 × Operation) :=
  [(0, .openOn default),
    (0, .deliver ⟨⟨1⟩, .loaded (.ok [{ url := "a", title := "A", filename := "a" }])⟩),
    (0, .setFilter .fetched), (0, .setNaming .filename)]

/-- The names of the item differ, and it counts neither in which order the changes are taken back
nor what was shown in between. -/
theorem Dialog.changed_projection :
    ∃ s, ((create ⟨25, 300, 0⟩).run changedRun).dialog.session = some s ∧
      ((create ⟨25, 300, 0⟩).run changedRun).dialog.phase = .ready ∧
      (∃ items now, (create ⟨25, 300, 0⟩).tabledAt none changedRun = some now ∧
        s.Plain items ⟨now, 0⟩ ∧ ∀ p, s.projection = some p →
          (p.namesDiffer = true ↔ ∃ item ∈ items, item.filename ≠ item.title)) ∧
      (((create ⟨25, 300, 0⟩).run changedRun).dialog.runAt 0
          [.setFilter .new, .setNaming .title, .setFilter .all]).session.bind Session.projection =
        (((create ⟨25, 300, 0⟩).run changedRun).dialog.runAt 0
          [.setFilter .all, .setNaming .title]).session.bind Session.projection := by
  refine ⟨_, rfl, rfl, ?_⟩
  obtain ⟨hplain, hlast⟩ := run_projection ⟨25, 300, 0⟩ changedRun _ rfl (.inl rfl)
  refine ⟨hplain, hlast 0 ?_ _ _ ?_ ?_ rfl rfl⟩
  · simp [changedRun]
  · simp [Operation.IsChange]
  · simp [Operation.IsChange]

end FeedDesk
