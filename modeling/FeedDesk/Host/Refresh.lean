import FeedDesk.Host.Call
import FeedDesk.Remote.Error

/-!
# Refreshing all feeds
-/
namespace FeedDesk

/-- What the host hears after the server was asked to refresh every feed. -/
def refreshCalls : Answer Unit → List HostCall
  | .ok () => [.notify .refreshStarted]
  | .error e => [.alert "Error" ("Could not fetch feeds: " ++ e.message)]

end FeedDesk
