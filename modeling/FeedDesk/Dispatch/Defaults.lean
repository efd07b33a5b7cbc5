import FeedDesk.Number.Decimal
import FeedDesk.Text.Blank

/-!
# Category and priority of queued items

All items of a view are queued with the category and the priority of its feed. The priority
comes as a text; one that is no number counts as zero, and is worth a warning.
-/
namespace FeedDesk

inductive PriorityOption where
  | unset
  | given (priority : Int32)
  | unreadable
  deriving DecidableEq, Repr, Inhabited

namespace PriorityOption

/-- A priority is a signed decimal integer of 32 bits with white space around it allowed. -/
def read (text : String) : PriorityOption :=
  match Text.trimBy Text.isBlank text.toList with
  | [] => unset
  | cs =>
    match Number.readIntIn? (-Int.pow 2 31) (Int.pow 2 31 - 1) cs with
    | some n => given (Int32.ofInt n)
    | none => unreadable

def value : PriorityOption → Int32
  | given n => n
  | _ => 0

def warnings : PriorityOption → Nat
  | unreadable => 1
  | _ => 0

end PriorityOption

/-- What every item of a view is queued with. -/
structure DispatchDefaults where
  category : String
  priority : Int32
  deriving DecidableEq, Repr, Inhabited

def DispatchDefaults.ofOptions (category priority : String) : DispatchDefaults where
  category := category
  priority := (PriorityOption.read priority).value

end FeedDesk
