import FeedDesk.Feed.Options
import FeedDesk.Text.Blank

/-!
# Saved feeds

A saved feed is a numbered group of server options, such as `Feed1.URL` and `Feed1.Name`. The
numbers start at one and have no gaps; a feed without an address is passed over.
-/
namespace FeedDesk

structure FeedDefinition where
  id : UInt32
  url : String
  name : String
  category : String
  priority : String
  deriving DecidableEq, Repr, Inhabited

/-- A search for saved feeds: the numbers of which the address was asked for, and the feeds that
were found. -/
structure FeedSearch where
  asked : List UInt32
  found : List FeedDefinition
  deriving DecidableEq, Repr, Inhabited

namespace FeedDefinition

def optionName (id : UInt32) (key : String) : String :=
  "Feed" ++ Nat.repr id.toNat ++ "." ++ key

/-- The feed of a number. There is one if its address option is set, even to nothing. -/
def read? (options : Options) (id : UInt32) : Option FeedDefinition :=
  (options.value? (optionName id "URL")).map fun url =>
    { id, url
      name := (options.value? (optionName id "Name")).getD ""
      category := (options.value? (optionName id "Category")).getD ""
      priority := (options.value? (optionName id "Priority")).getD "" }

def label (d : FeedDefinition) : String :=
  if d.name = "" then "Feed" ++ Nat.repr d.id.toNat else d.name

def hasUrl (d : FeedDefinition) : Bool := !Text.isAllBlank d.url

/-- The search for feeds from the number `id` on, up to the first number without one, when `left`
numbers are left to ask for. After the last of these the search would be back where it began: every
number has its feed, and the search goes round for ever and comes to nothing. -/
def searchFrom? (read : UInt32 → Option FeedDefinition) : Nat → UInt32 → Option FeedSearch
  | 0, _ => none
  | left + 1, id =>
    match read id with
    | none => some ⟨[id], []⟩
    | some feed => do
      let rest ← searchFrom? read left (id + 1)
      pure ⟨id :: rest.asked, feed :: rest.found⟩

def search? (options : Options) : Option FeedSearch :=
  searchFrom? (read? options) UInt32.size 1

def all (options : Options) : List FeedDefinition :=
  match search? options with
  | some search => search.found.filter hasUrl
  | none => []

def menu (options : Options) : List (UInt32 × String) :=
  (all options).map fun d => (d.id, d.label)

end FeedDefinition

end FeedDesk
