import FeedDesk.Config
import FeedDesk.Proofs.Console.Printing
import Mathlib.Algebra.Order.Floor.Div
import Mathlib.Data.Rat.Floor

/-!
# The frame of a printed table

A table is printed as a title, a line of counts, a hint if names differ and titles are shown, an
empty line, a heading, the rows of its first page, and a pager line if there are more. No line holds
a control character but the tab, so the output has just these lines, whatever text the feed brings.
-/
namespace FeedDesk.Console

open Text

structure Frame where
  title : String
  counts : String
  hint : Option String
  heading : String
  rows : List String
  pager : Option String

def Frame.lines (f : Frame) : List String :=
  f.title :: f.counts :: (f.hint.toList ++ "" :: f.heading :: (f.rows ++ f.pager.toList))

def namesHint : String := "Some filenames differ from titles; use --filenames to see them"

def pagerLine (more pages : Nat) : String :=
  "... " ++ Nat.repr more ++ " more rows (page 1 of " ++ Nat.repr pages ++ ")"

/-- A frame around the table of some items, in pages of a size. -/
structure Frame.Fits (pageSize : Nat) (clock : Clock) (title : String) (items : List Item)
    (filter : StatusFilter) (naming : Naming) (f : Frame) : Prop where
  title_eq : f.title = stripControl title
  counts_eq : f.counts = countsLine (.ofItems items filter naming clock)
  hint_iff : f.hint = some namesHint ↔
    (∃ item ∈ items, item.filename ≠ item.title) ∧ naming = .title
  hint_eq : f.hint = none ∨ f.hint = some namesHint
  heading_eq : f.heading = columns "STATUS" naming.header "CATEGORY" "AGE" "SIZE"
  rows_eq : f.rows = ((items.filter fun item => filter.shows item.status).take pageSize).map
    fun item => rowLine (.ofItem naming clock item)
  rows_length : f.rows.length =
    min (items.countP fun item => filter.shows item.status) pageSize
  pager_iff : f.pager.isSome ↔ pageSize < items.countP fun item => filter.shows item.status
  pager_eq : ∀ line, f.pager = some line →
    0 < pageSize ∧ pageSize ≤ (items.countP fun item => filter.shows item.status) ∧
      ∃ more, line = pagerLine more
          ⌈((items.countP fun item => filter.shows item.status : Nat) : ℚ) / pageSize⌉₊ ∧
        more + f.rows.length = items.countP fun item => filter.shows item.status
  printable : ∀ line ∈ f.lines, Printable line

def frameOf (pageSize : Nat) (clock : Clock) (title : String) (items : List Item)
    (filter : StatusFilter) (naming : Naming) : Frame :=
  let shown := items.filter fun item => filter.shows item.status
  { title := stripControl title
    counts := countsLine (.ofItems items filter naming clock)
    hint := if items.any Item.namesDiffer && naming = .title then some namesHint else none
    heading := columns "STATUS" naming.header "CATEGORY" "AGE" "SIZE"
    rows := (shown.take pageSize).map fun item => rowLine (.ofItem naming clock item)
    pager := if pageSize < shown.length then
        some (pagerLine (shown.length - pageSize) (pageCount shown.length pageSize))
      else none }

variable {pageSize : Nat} {clock : Clock} {title : String} {items : List Item}
  {filter : StatusFilter} {naming : Naming}

/-- The lines of a table are those of its frame. -/
theorem tableLines_eq (settings : DialogSettings) (now : Int64) :
    tableLines settings.pageSize title (.ofItems settings now items filter naming) =
      (frameOf settings.pageSize ⟨now, settings.zone⟩ title items filter naming).lines := by
  unfold tableLines hintLines pagerLines frameOf Frame.lines ShownTable.ofItems
    Projection.needsPager Projection.ofItems
  simp only [decide_eq_true_eq, List.length_map, ← List.map_take, List.map_map]
  split <;> split <;> rfl

/-! ## Lines -/

theorem printable_columns {status name category age size : String} (hstatus : Printable status)
    (hname : Printable name) (hcategory : Printable category) (hage : Printable age)
    (hsize : Printable size) : Printable (columns status name category age size) := by
  have hblank : Printable " " := by decide
  simp [columns, hstatus, hname, hcategory, hage, hsize, hblank]

theorem printable_rowLine (naming : Naming) (clock : Clock) (item : Item) :
    Printable (rowLine (.ofItem naming clock item)) :=
  printable_columns item.status.printable_label (printable_stripControl _)
    (printable_stripControl _) (Age.printable_text _ _ _) item.printable_sizeText

theorem printable_countsLine (p : Projection) : Printable (countsLine p) := by
  have hwords : Printable "ALL " ∧ Printable "  NEW " ∧ Printable "  FETCHED " ∧
      Printable "  BACKLOG " ∧ Printable "  (showing " ∧ Printable ")" := by decide
  unfold countsLine
  simp only [printable_append, hwords, printable_natRepr, p.filter.printable_label, and_self]

theorem printable_pagerLine (more pages : Nat) : Printable (pagerLine more pages) := by
  have hwords : Printable "... " ∧ Printable " more rows (page 1 of " ∧ Printable ")" := by decide
  simp [pagerLine, hwords]

theorem printable_heading (naming : Naming) :
    Printable (columns "STATUS" naming.header "CATEGORY" "AGE" "SIZE") :=
  printable_columns (by decide) naming.printable_header (by decide) (by decide) (by decide)

theorem printable_frameOf :
    ∀ line ∈ (frameOf pageSize clock title items filter naming).lines, Printable line := by
  have hhint : ∀ line ∈ (frameOf pageSize clock title items filter naming).hint,
      Printable line := by
    intro line hline
    obtain ⟨-, hconstant⟩ := Option.ite_none_right_eq_some.mp hline
    obtain rfl := Option.some.inj hconstant
    decide
  have hrows : ∀ line ∈ (frameOf pageSize clock title items filter naming).rows,
      Printable line := by
    intro line hline
    obtain ⟨item, -, rfl⟩ := List.mem_map.mp hline
    exact printable_rowLine naming clock item
  have hpager : ∀ line ∈ (frameOf pageSize clock title items filter naming).pager,
      Printable line := by
    intro line hline
    obtain ⟨-, hcounted⟩ := Option.ite_none_right_eq_some.mp hline
    obtain rfl := Option.some.inj hcounted
    exact printable_pagerLine _ _
  simp only [Frame.lines, List.forall_mem_cons, List.forall_mem_append, Option.mem_toList]
  exact ⟨printable_stripControl title, printable_countsLine _, hhint, by decide,
    printable_heading naming, hrows, hpager⟩

/-- The number of pages is the number of rows in pages, rounded up. -/
theorem pageCount_eq_ceil (rows : Nat) (hsize : 0 < pageSize) :
    pageCount rows pageSize = ⌈(rows : ℚ) / pageSize⌉₊ := by
  apply eq_of_forall_ge_iff
  intro pages
  have hpositive : (0 : ℚ) < pageSize := by exact_mod_cast hsize
  rw [pageCount, ← Nat.ceilDiv_eq_add_pred_div, ceilDiv_le_iff_le_mul hsize, Nat.ceil_le,
    div_le_iff₀ hpositive, mul_comm pageSize pages]
  norm_cast

theorem fits_frameOf (hsize : 0 < pageSize) :
    (frameOf pageSize clock title items filter naming).Fits pageSize clock title items filter
      naming := by
  have hshown : (items.filter fun item => filter.shows item.status).length =
      items.countP fun item => filter.shows item.status := List.countP_eq_length_filter.symm
  constructor
  case title_eq | counts_eq | heading_eq | rows_eq => rfl
  case hint_iff =>
    simp only [frameOf, Option.ite_none_right_eq_some, Bool.and_eq_true, List.any_eq_true,
      Item.namesDiffer, bne_iff_ne, decide_eq_true_eq, and_true]
  case hint_eq =>
    unfold frameOf
    dsimp only
    split
    · exact .inr rfl
    · exact .inl rfl
  case rows_length => simp [frameOf, hshown, Nat.min_comm]
  case pager_iff => simp [frameOf, hshown]
  case pager_eq =>
    intro line hline
    obtain ⟨hmore, hcounted⟩ := Option.ite_none_right_eq_some.mp hline
    obtain rfl := Option.some.inj hcounted
    rw [hshown] at hmore ⊢
    refine ⟨hsize, Nat.le_of_lt hmore, _, by rw [pageCount_eq_ceil _ hsize], ?_⟩
    simp only [frameOf, List.length_map, List.length_take, hshown]
    omega
  case printable => exact printable_frameOf

/-! ## The output of a view -/

section
variable {σ : Type}

theorem keeps_table (remote : Remote σ) (table : List String) :
    Keeps remote fun _ lines => ∃ notices : List Notice,
      lines.filterMap Line.out? = table ++ notices.map Notice.text := by
  have moved (t : Terminal σ) (desk : Desk σ)
      (h : ∃ notices : List Notice,
        t.lines.filterMap Line.out? = table ++ notices.map Notice.text) :
      ∃ notices : List Notice,
        (t.moveTo desk).lines.filterMap Line.out? = table ++ notices.map Notice.text := by
    obtain ⟨notices, hlines⟩ := h
    refine ⟨notices ++ (desk.hostCalls.drop t.desk.hostCalls.length).filterMap notice?, ?_⟩
    rw [Terminal.moveTo, List.filterMap_append, hlines, out_flatMap_hostLines, List.map_append,
      List.append_assoc]
  exact ⟨fun t op h => moved t _ h, fun t h => moved t _ h⟩

/-- A view of a feed that loads prints the table of its items in a frame that fits, in pages of as
many rows as the settings say, and of one at least. On the standard output notices follow, and the
output has no lines but these. -/
theorem runView_prints_table (remote : Remote σ) (source : FeedSource) (options : ViewOptions)
    (config : Config) (wallClock : Int64) (s : σ) (items : List Item)
    (hload : (remote.load source.call s).1.outcome = .answers (.ok items))
    (hnodup : (items.map Item.url).Nodup) :
    ∃ (frame : Frame) (notices : List Notice),
      frame.Fits (max 1 config.pageSize.toNat) ⟨wallClock, config.zone⟩ source.title items
        options.status options.naming ∧
      (runView remote source options
          (.create config.dialogSettings wallClock s)).1.lines.filterMap Line.out? =
        frame.lines ++ notices.map Notice.text ∧
      (stdoutText (runView remote source options
          (.create config.dialogSettings wallClock s)).1.lines).toList.splitOn '\n' =
        (frame.lines ++ notices.map Notice.text).map String.toList ++ [[]] := by
  obtain ⟨t, ht, -, hlines, -, -⟩ :=
    showView_loaded hload hnodup options config.dialogSettings wallClock
  let frame : Frame := frameOf (max 1 config.pageSize.toNat) ⟨wallClock, config.zone⟩
    source.title items options.status options.naming
  have hfits : frame.Fits (max 1 config.pageSize.toNat) ⟨wallClock, config.zone⟩ source.title
      items options.status options.naming := fits_frameOf (Nat.le_max_left 1 _)
  have htable : t.lines.filterMap Line.out? = frame.lines := by
    rw [hlines, tableLines_eq, List.filterMap_map]
    exact List.filterMap_some
  obtain ⟨⟨notices, hout⟩, -⟩ := (keeps_table remote frame.lines).proceed options
    ⟨[], htable.trans (List.append_nil _).symm⟩
  have hrun : (runView remote source options
      (.create config.dialogSettings wallClock s)).1.lines.filterMap Line.out? =
        frame.lines ++ notices.map Notice.text := by
    rw [runView_eq, ht]
    exact hout
  refine ⟨frame, notices, hfits, hrun, ?_⟩
  rw [stdoutText_eq, hrun]
  apply splitOn_joinLines
  refine List.forall_mem_append.mpr ⟨hfits.printable, ?_⟩
  exact List.forall_mem_map.mpr fun notice _ => printable_notice notice

/-- Two items whose texts are to break the lines of a table. -/
def breakingItems : List Item :=
  [{ url := "a", title := "first\nNEW      second", filename := "first" },
    { url := "b", title := "\x1b[2J", filename := "second", category := "TV\r\n", status := .new }]

def breakingSource : FeedSource := .preview ⟨"Feed\nALL 0", "http://a/", "", "", ""⟩

/-- A page of no rows is taken as one of one row, and the second item gets a pager line. -/
theorem breaking_view_prints_table :
    ∃ (frame : Frame) (notices : List Notice),
      frame.Fits 1 ⟨0, 0⟩ breakingSource.title breakingItems .all .title ∧
      (runView (.wavering breakingItems) breakingSource {}
          (.create ⟨1, 500, 0⟩ 0 true)).1.lines.filterMap Line.out? =
        frame.lines ++ notices.map Notice.text ∧
      (stdoutText (runView (.wavering breakingItems) breakingSource {}
          (.create ⟨1, 500, 0⟩ 0 true)).1.lines).toList.splitOn '\n' =
        (frame.lines ++ notices.map Notice.text).map String.toList ++ [[]] :=
  runView_prints_table (.wavering breakingItems) breakingSource {} { pageSize := 0 } 0 true
    breakingItems rfl (by decide)

end

end FeedDesk.Console
