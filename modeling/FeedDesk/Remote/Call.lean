import FeedDesk.Json.Printer

/-!
# Calls

The calls that the server answers. Only calls that read are ever repeated: a lost answer does not
mean that an item was not queued.
-/
namespace FeedDesk

structure AppendRequest where
  name : String
  category : String
  priority : Int32
  paused : Bool
  url : String
  deriving DecidableEq, Repr, Inhabited

inductive RemoteCall where
  | fetchFeeds
  | viewFeed (id : UInt32)
  | previewFeed (name url filter : String)
  | appendUrl (request : AppendRequest)
  | loadConfig
  deriving DecidableEq, Repr

namespace RemoteCall

def method : RemoteCall → String
  | fetchFeeds => "fetchfeeds"
  | viewFeed _ => "viewfeed"
  | previewFeed .. => "previewfeed"
  | appendUrl _ => "appendurl"
  | loadConfig => "config"

def parameters : RemoteCall → List Json
  | fetchFeeds | loadConfig => []
  | viewFeed id => [.ofNat id.toNat]
  | previewFeed name url filter => [.ofString name, .ofString url, .ofString filter]
  | appendUrl r =>
    [.ofString r.name, .ofString r.category, .ofInt r.priority.toInt, .bool r.paused,
      .ofString r.url]

/-- Whether a call only reads what other calls change. -/
def isRepeatable : RemoteCall → Bool
  | viewFeed _ | previewFeed .. | loadConfig => true
  | fetchFeeds | appendUrl _ => false

end RemoteCall

end FeedDesk
