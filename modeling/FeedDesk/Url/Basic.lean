import FeedDesk.Url.Host

/-!
# Web addresses

An address of the scheme `http` or `https`, taken apart. User name, password, path, query and
fragment are kept percent-encoded. The path is the list of its segments and is never empty: the
path `/` has one empty segment.
-/
namespace FeedDesk

structure Url where
  scheme : String
  username : String := ""
  password : Option String := none
  host : Url.Host
  port : Option Nat := none
  path : List String
  query : Option String := none
  fragment : Option String := none
  deriving DecidableEq, Repr, Inhabited

namespace Url

/-- The user name and the password, if there is one of them, with the sign that ends them. -/
def credentialsText (u : Url) : String :=
  match u.password with
  | some p => u.username ++ ":" ++ p ++ "@"
  | none => if u.username = "" then "" else u.username ++ "@"

def pathText (u : Url) : String :=
  String.join (u.path.map fun s => "/" ++ s)

/-- The port, if it is not the usual one of the scheme. -/
def portText (u : Url) : String :=
  match u.port with
  | some p => ":" ++ Nat.repr p
  | none => ""

def target (u : Url) : String :=
  match u.query with
  | some q => u.pathText ++ "?" ++ q
  | none => u.pathText

def text (u : Url) : String :=
  u.scheme ++ "://" ++ u.credentialsText ++ u.host.text ++ u.portText ++ u.target
    ++ (match u.fragment with | some f => "#" ++ f | none => "")

def hasCredentials (u : Url) : Bool :=
  u.username != "" || u.password.isSome

end Url

end FeedDesk
