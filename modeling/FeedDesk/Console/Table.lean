import FeedDesk.Host.Screen
import FeedDesk.Text.Column
import FeedDesk.Text.Control

/-!
# The printed table

The table of a view as lines of text. Names are printed without soft breaks, and no text of a feed
is printed with its control characters.
-/
namespace FeedDesk.Console

def columns (status name category age size : String) : String :=
  Text.alignLeft 8 status ++ " " ++ Text.alignLeft 60 name ++ " " ++ Text.alignLeft 16 category
    ++ " " ++ Text.alignRight 6 age ++ " " ++ Text.alignRight 10 size

def rowLine (r : Row) : String :=
  columns r.status (Text.stripControl (Text.withoutSoftBreaks r.name))
    (Text.stripControl r.category) r.age r.size

def countsLine (p : Projection) : String :=
  "ALL " ++ Nat.repr p.counts.all ++ "  NEW " ++ Nat.repr p.counts.new ++ "  FETCHED "
    ++ Nat.repr p.counts.fetched ++ "  BACKLOG " ++ Nat.repr p.counts.backlog ++ "  (showing "
    ++ p.filter.label ++ ")"

/-- What is said if items go by two names and the titles are shown. -/
def hintLines (p : Projection) : List String :=
  if p.namesDiffer && p.naming = .title then
    ["Some filenames differ from titles; use --filenames to see them"]
  else []

def pageCount (rows pageSize : Nat) : Nat := (rows + pageSize - 1) / pageSize

def pagerLines (pageSize : Nat) (t : ShownTable) : List String :=
  if t.pagerVisible then
    let rows := t.projection.rows.length
    ["... " ++ Nat.repr (rows - pageSize) ++ " more rows (page 1 of "
      ++ Nat.repr (pageCount rows pageSize) ++ ")"]
  else []

/-- The lines of a table: its title and counts, the hint, the heading, the rows of the first page,
and the line below them. -/
def tableLines (pageSize : Nat) (title : String) (t : ShownTable) : List String :=
  [Text.stripControl title, countsLine t.projection] ++ hintLines t.projection
    ++ ["", columns "STATUS" t.projection.naming.header "CATEGORY" "AGE" "SIZE"]
    ++ (t.projection.rows.take pageSize).map rowLine ++ pagerLines pageSize t

end FeedDesk.Console
