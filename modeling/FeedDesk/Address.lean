import FeedDesk.Url.Parser
import FeedDesk.Text.Blank

/-!
# Addresses of servers and feeds

A server and a feed are given by web addresses with white space around them allowed. The address
of a server must not hold credentials, which are configured apart from it.
-/
namespace FeedDesk

/-- Why an address is refused. -/
inductive AddressError where
  | malformed (cause : Url.UrlError)
  | otherScheme (scheme : String)
  | noHost
  | credentials
  deriving DecidableEq, Repr

namespace AddressError

def message : AddressError → String
  | malformed cause => "Invalid URL: " ++ cause.message
  | otherScheme scheme => "Unsupported scheme: " ++ scheme ++ " (only http/https allowed)"
  | noHost => "URL has no host"
  | credentials => "Credentials must not be embedded in the server URL"

def causes : AddressError → List String
  | malformed cause => [cause.message]
  | _ => []

end AddressError

namespace Address

def feed [Url.DomainMapping] (text : String) : Except AddressError Url :=
  match Url.read (Text.trim text) with
  | .error e => .error (.malformed e)
  | .ok (.other scheme) => .error (.otherScheme scheme)
  | .ok (.web url) => if url.host.text = "" then .error .noHost else .ok url

/-- The address of a server: that of a feed, without credentials. -/
def server [Url.DomainMapping] (text : String) : Except AddressError Url := do
  let url ← feed text
  if url.hasCredentials then throw .credentials
  pure url

end Address

end FeedDesk
