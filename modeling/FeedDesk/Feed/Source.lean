import FeedDesk.Dispatch.Defaults
import FeedDesk.Feed.Definition
import FeedDesk.Remote.Call

/-!
# What a view shows

A view shows a saved feed, or a feed that is tried out before it is saved.
-/
namespace FeedDesk

structure PreviewFeed where
  name : String
  url : String
  filter : String
  category : String
  priority : String
  deriving DecidableEq, Repr, Inhabited

/-- What a view shows. -/
inductive FeedSource where
  | saved (feed : FeedDefinition)
  | preview (feed : PreviewFeed)
  deriving DecidableEq, Repr, Inhabited

namespace FeedSource

def title : FeedSource → String
  | saved feed => if feed.name = "" then "Feed" else feed.name
  | preview feed => if feed.name = "" then "Feed Preview" else feed.name

def optionTexts : FeedSource → String × String
  | saved feed => (feed.category, feed.priority)
  | preview feed => (feed.category, feed.priority)

def defaults (source : FeedSource) : DispatchDefaults :=
  .ofOptions source.optionTexts.1 source.optionTexts.2

def call : FeedSource → RemoteCall
  | saved feed => .viewFeed feed.id
  | preview feed => .previewFeed feed.name feed.url feed.filter

end FeedSource

end FeedDesk
