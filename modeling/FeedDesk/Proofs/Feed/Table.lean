import FeedDesk.Feed.Projection
import Mathlib.Data.List.Forall2

/-!
# The table of a feed

One pass over the items counts them, compares their names and collects the rows of those that are
shown. What is counted and compared comes of all items, whatever is shown and in whatever way: the
table under a filter has the rows that the table of all items has for the items of its status, and
the number beside the filter is the number of these rows.
-/
namespace FeedDesk

/-- Counts are added status by status. -/
instance : Add StatusCounts where
  add c d := ⟨c.new + d.new, c.fetched + d.fetched, c.backlog + d.backlog⟩

def StatusCounts.record (c : StatusCounts) : ItemStatus → StatusCounts
  | .new => { c with new := c.new + 1 }
  | .fetched => { c with fetched := c.fetched + 1 }
  | .backlog => { c with backlog := c.backlog + 1 }
  | .unknown => c

structure TablePass where
  counts : StatusCounts := {}
  namesDiffer : Bool := false
  rows : List Row := []

/-- A pass with one item more, which counts whether it is shown or not. -/
def TablePass.next (filter : StatusFilter) (naming : Naming) (clock : Clock) (pass : TablePass)
    (item : Item) : TablePass :=
  let counted :=
    { pass with
      counts := pass.counts.record item.status
      namesDiffer := pass.namesDiffer || item.namesDiffer }
  if filter.shows item.status then
    { counted with rows := counted.rows ++ [Row.ofItem naming clock item] }
  else counted

def Projection.inOnePass (items : List Item) (filter : StatusFilter) (naming : Naming)
    (clock : Clock) : Projection :=
  let pass := items.foldl (TablePass.next filter naming clock) {}
  ⟨pass.rows, pass.counts, pass.namesDiffer, filter, naming⟩

/-- What a row says of an item. It is searched by its columns, with the name unbroken. -/
structure Row.Describes (naming : Naming) (clock : Clock) (item : Item) (row : Row) : Prop where
  id : row.id = item.url
  status : row.status = item.status.label
  name : row.name = Text.withSoftBreaks (naming.nameOf item)
  category : row.category = item.category
  age : row.age = Age.text item.time clock.zone clock.now
  size : row.size = item.sizeText
  search : row.search =
    " ".intercalate [row.status, naming.nameOf item, row.category, row.age, row.size]

/-- A row without what depends on the name that is shown. -/
def Row.nameless (row : Row) : Row := { row with name := "", search := "" }

/-- How the tables of some items depend on the filter, the naming and the clock. -/
structure Projection.Lawful (items : List Item) (filter : StatusFilter) (naming : Naming)
    (clock : Clock) : Prop where
  onePass : ofItems items filter naming clock = inOnePass items filter naming clock
  shows_iff : ∀ status, filter.shows status = true ↔ filter = .all ∨ filter.label = status.label
  described : List.Forall₂ (Row.Describes naming clock) items
    (ofItems items .all naming clock).rows
  rows : (ofItems items filter naming clock).rows =
    ((items.zip (ofItems items .all naming clock).rows).filter
      fun shown => filter.shows shown.1.status).map Prod.snd
  unmoved : ∀ filter' naming' clock',
    (ofItems items filter' naming' clock').counts = (ofItems items filter naming clock).counts ∧
      (ofItems items filter' naming' clock').namesDiffer =
        (ofItems items filter naming clock).namesDiffer
  counts_append : ∀ more, (ofItems (items ++ more) filter naming clock).counts =
    (ofItems items filter naming clock).counts + (ofItems more filter naming clock).counts
  namesDiffer_iff : (ofItems items filter naming clock).namesDiffer = true ↔
    ∃ item ∈ items, item.filename ≠ item.title
  length_rows : filter ≠ .all → (ofItems items filter naming clock).rows.length =
    (ofItems items filter naming clock).counts.badge filter
  length_all : (ofItems items .all naming clock).rows.length =
    (ofItems items .all naming clock).counts.all + items.countP (·.status == .unknown)
  renamed : ∀ naming', (ofItems items filter naming' clock).rows.map Row.nameless =
    (ofItems items filter naming clock).rows.map Row.nameless

/-! ## Counts -/

namespace StatusCounts

theorem add_eq (c d : StatusCounts) :
    c + d = ⟨c.new + d.new, c.fetched + d.fetched, c.backlog + d.backlog⟩ := rfl

theorem ofItems_append (items more : List Item) :
    ofItems (items ++ more) = ofItems items + ofItems more := by
  simp only [ofItems, List.countP_append, add_eq]

theorem record_eq (c : StatusCounts) (item : Item) :
    c.record item.status = c + ofItems [item] := by
  simp only [add_eq, ofItems, List.countP_singleton]
  cases item.status <;> rfl

theorem zero_add (c : StatusCounts) : {} + c = c := by
  simp only [add_eq, Nat.zero_add]

theorem add_assoc (c d e : StatusCounts) : c + d + e = c + (d + e) := by
  simp only [add_eq, Nat.add_assoc]

/-- The number beside a filter other than that for all items is the number of items it shows. -/
theorem badge_ofItems {filter : StatusFilter} (h : filter ≠ .all) (items : List Item) :
    (ofItems items).badge filter = items.countP fun item => filter.shows item.status := by
  cases filter with
  | all => exact absurd rfl h
  | new | fetched | backlog => rfl

/-- Every item is counted or has an unknown status. -/
theorem all_ofItems (items : List Item) :
    (ofItems items).all + items.countP (·.status == .unknown) = items.length := by
  induction items with
  | nil => rfl
  | cons item items ih =>
    simp only [all, ofItems, List.countP_cons, List.length_cons] at ih ⊢
    cases item.status <;> simp <;> omega

end StatusCounts

/-! ## The pass -/

section
variable (items : List Item) (filter : StatusFilter) (naming : Naming) (clock : Clock)

/-- The items behind those of a pass are counted and compared, and those shown have their rows. -/
theorem TablePass.foldl_next (pass : TablePass) :
    items.foldl (next filter naming clock) pass =
      ⟨pass.counts + .ofItems items, pass.namesDiffer || items.any Item.namesDiffer,
        pass.rows ++ (items.filter fun item => filter.shows item.status).map
          (Row.ofItem naming clock)⟩ := by
  induction items generalizing pass with
  | nil => simp [StatusCounts.add_eq, StatusCounts.ofItems]
  | cons item items ih =>
    have hcounts : pass.counts.record item.status + .ofItems items =
        pass.counts + .ofItems (item :: items) := by
      rw [StatusCounts.record_eq, StatusCounts.add_assoc, ← StatusCounts.ofItems_append]
      rfl
    rw [List.foldl_cons, ih, List.any_cons, ← hcounts, ← Bool.or_assoc]
    cases hshown : filter.shows item.status with
    | true => simp [next, hshown]
    | false => simp [next, hshown]

/-- The table of some items is what one pass over them comes to. -/
theorem Projection.ofItems_eq_inOnePass :
    ofItems items filter naming clock = inOnePass items filter naming clock := by
  rw [inOnePass, TablePass.foldl_next, StatusCounts.zero_add, Bool.false_or, List.nil_append]
  rfl

/-! ## Rows -/

theorem StatusFilter.shows_iff (status : ItemStatus) :
    filter.shows status = true ↔ filter = .all ∨ filter.label = status.label := by
  cases filter <;> cases status <;> decide

theorem Row.describes_ofItem (item : Item) :
    Row.Describes naming clock item (Row.ofItem naming clock item) := by
  constructor <;> rfl

namespace Projection

theorem rows_all : (ofItems items .all naming clock).rows = items.map (Row.ofItem naming clock) :=
  congrArg (List.map _) (List.filter_eq_self.mpr fun _ _ => rfl)

/-- The rows under a filter are those of the table of all items that belong to the items shown. -/
theorem rows_eq_filter : (ofItems items filter naming clock).rows =
    ((items.zip (ofItems items .all naming clock).rows).filter
      fun shown => filter.shows shown.1.status).map Prod.snd := by
  have hzip : items.zip (items.map (Row.ofItem naming clock)) =
      items.map fun item => (item, Row.ofItem naming clock item) := by
    simpa only [List.map_id, id_eq] using List.zip_map' (f := id) (l := items)
  rw [rows_all, hzip, List.filter_map, List.map_map]
  rfl

theorem length_rows_ofItems : (ofItems items filter naming clock).rows.length =
    items.countP fun item => filter.shows item.status := by
  rw [ofItems, List.length_map, List.countP_eq_length_filter]

/-- Another naming changes no more than the names and what the rows are searched by. -/
theorem map_nameless_rows (naming' : Naming) :
    (ofItems items filter naming' clock).rows.map Row.nameless =
      (ofItems items filter naming clock).rows.map Row.nameless := by
  simp only [ofItems, List.map_map]
  rfl

/-- The tables of any items are made up as they should be: the items make the counts and the
comparison of names, the filter chooses among the rows, and the naming the names in them. -/
theorem ofItems_lawful : Lawful items filter naming clock := by
  constructor
  case onePass => exact ofItems_eq_inOnePass items filter naming clock
  case shows_iff => exact filter.shows_iff
  case described =>
    rw [rows_all, List.forall₂_map_right_iff, List.forall₂_same]
    exact fun item _ => Row.describes_ofItem naming clock item
  case rows => exact rows_eq_filter items filter naming clock
  case unmoved => exact fun _ _ _ => ⟨rfl, rfl⟩
  case counts_append => exact StatusCounts.ofItems_append items
  case namesDiffer_iff =>
    change items.any Item.namesDiffer = true ↔ _
    simp only [List.any_eq_true, Item.namesDiffer, bne_iff_ne]
  case length_rows =>
    intro hfilter
    rw [length_rows_ofItems]
    exact (StatusCounts.badge_ofItems hfilter items).symm
  case length_all =>
    rw [rows_all, List.length_map]
    exact (StatusCounts.all_ofItems items).symm
  case renamed => exact map_nameless_rows items filter naming clock

end Projection

end

end FeedDesk
