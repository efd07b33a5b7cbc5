import FeedDesk.Main
import FeedDesk.Proofs.Desk.Attempts
import FeedDesk.Proofs.Desk.Order
import FeedDesk.Proofs.Desk.Calls
import FeedDesk.Proofs.Desk.WayOut
import FeedDesk.Proofs.Desk.Settling
import FeedDesk.Proofs.Desk.Strays
import FeedDesk.Proofs.Dialog.Consistency
import FeedDesk.Proofs.Dialog.RefreshPause
import FeedDesk.Proofs.Dialog.Mirror
import FeedDesk.Proofs.Dialog.Controls
import FeedDesk.Proofs.Desk.Conservation
import FeedDesk.Proofs.Dialog.Tables
import FeedDesk.Proofs.Dialog.Selection
import FeedDesk.Proofs.Dialog.Outcomes
import FeedDesk.Proofs.Desk.Trails
import FeedDesk.Proofs.Desk.Stages
import FeedDesk.Proofs.Desk.BatchRuns
import FeedDesk.Proofs.Desk.Kept
import FeedDesk.Proofs.Desk.Steps
import FeedDesk.Proofs.Desk.Timers
import FeedDesk.Proofs.Dialog.Sign
import FeedDesk.Proofs.Desk.Transmit
import FeedDesk.Proofs.Dialog.Renaming
import FeedDesk.Proofs.Desk.Reopening
import FeedDesk.Proofs.Desk.Refusals
import FeedDesk.Proofs.Feed.Members
import FeedDesk.Proofs.Feed.SplitSize
import FeedDesk.Proofs.Dispatch.InOrder
import FeedDesk.Proofs.Dispatch.Posts
import FeedDesk.Proofs.Console.Sending
import FeedDesk.Proofs.Desk.Loading
import FeedDesk.Proofs.Desk.Sending
import FeedDesk.Proofs.Text.Printable
import FeedDesk.Proofs.Text.Extension
import FeedDesk.Proofs.Console.Showing
import FeedDesk.Proofs.Desk.Alerts
import FeedDesk.Proofs.Console.Printing
import FeedDesk.Proofs.Console.Picking
import FeedDesk.Proofs.Console.Framing
import FeedDesk.Proofs.Remote.Wording
import FeedDesk.Proofs.Console.ErrorOutput
import FeedDesk.Proofs.Feed.Table
import FeedDesk.Proofs.Feed.Stores
import FeedDesk.Proofs.Feed.Search
import FeedDesk.Proofs.Remote.Retries
import FeedDesk.Proofs.Feed.Ages
import FeedDesk.Proofs.Feed.Sizes
import FeedDesk.Proofs.Json.Places
import FeedDesk.Proofs.Desk.Names
import FeedDesk.Proofs.Console.Halted
import FeedDesk.Proofs.Url.Paths
import FeedDesk.Proofs.Remote.Endpoint
import FeedDesk.Proofs.Toml.Documents
import FeedDesk.Proofs.Config.Settings
import FeedDesk.Proofs.Config.KnownKeys
import FeedDesk.Proofs.Text.SoftBreak
import FeedDesk.Proofs.Dispatch.Priority
import FeedDesk.Proofs.Remote.Bodies
import FeedDesk.Proofs.Desk.LoadFailures
