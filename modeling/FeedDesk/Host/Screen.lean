import FeedDesk.Host.Call

/-!
# The screen

What the operator sees is what the calls made so far come to: the last table, the last title, and
so on.
-/
namespace FeedDesk

structure ShownTable where
  projection : Projection
  pagerVisible : Bool
  deriving DecidableEq, Repr, Inhabited

/-- The screen. The controls are undetermined until they are first set. -/
structure Screen where
  table : Option ShownTable := none
  title : String := ""
  loading : Bool := false
  page : Nat := 0
  controls : Option Bool := none
  transmit : Bool := false
  deriving DecidableEq, Repr, Inhabited

namespace Screen

def apply (s : Screen) : HostCall → Screen
  | .table p pager => { s with table := some ⟨p, pager⟩ }
  | .clearTable => { s with table := none }
  | .title text => { s with title := text }
  | .loading shown => { s with loading := shown }
  | .page number => { s with page := number }
  | .controls enabled => { s with controls := some enabled }
  | .transmit visible => { s with transmit := visible }
  | .pauseRefresh | .resumeRefresh | .notify _ | .alert .. | .progress .. => s

def applyAll (s : Screen) (calls : List HostCall) : Screen := calls.foldl apply s

def rowIds (s : Screen) : List String :=
  match s.table with
  | some t => t.projection.ids
  | none => []

end Screen

end FeedDesk
