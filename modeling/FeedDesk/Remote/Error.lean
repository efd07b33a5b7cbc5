import FeedDesk.Address

/-!
# Failed calls

Why a call to the server has no result. A call is worth repeating if the server could not be
reached, was silent, or reported a fault of its own in the HTTP status.
-/
namespace FeedDesk

inductive RemoteError where
  | unreachable
  | httpStatus (status : Nat)
  | timeout
  | fault (code : Int64) (message : String)
  | declined (method : String)
  | undecodable
  | tooLarge
  | badServer (cause : AddressError)
  deriving DecidableEq, Repr

namespace RemoteError

def unreachableDetail : String := "the server cannot be reached"

def undecodableDetail : String := "not the expected document"

def message : RemoteError → String
  | unreachable => "Request failed: " ++ unreachableDetail
  | httpStatus status => "HTTP error: status " ++ Nat.repr status
  | timeout => "Request timed out"
  | fault code text => "Server error " ++ Int.repr code.toInt ++ ": " ++ text
  | declined method => "Server rejected " ++ method
  | undecodable => "Invalid response: " ++ undecodableDetail
  | tooLarge => "Response too large"
  | badServer cause => "Invalid server URL: " ++ cause.message

def causes : RemoteError → List String
  | unreachable => [unreachableDetail]
  | undecodable => [undecodableDetail]
  | badServer cause => cause.message :: cause.causes
  | _ => []

/-- Whether another attempt may succeed. -/
def isTransient : RemoteError → Bool
  | unreachable | timeout => true
  | httpStatus status => decide (500 ≤ status)
  | _ => false

end RemoteError

abbrev Answer (α : Type) := Except RemoteError α

end FeedDesk
