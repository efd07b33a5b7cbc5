import FeedDesk.Url.Basic

/-!
# Reading web addresses

A text is read as the URL standard for the web reads it. White space and controls around it and
line ends inside it do not count, a backslash is a slash, and dots in the path are resolved. An
address of another scheme is only checked, so that what is refused for its scheme is otherwise
readable.
-/
namespace FeedDesk.Url

open Number

def isSingleDot (s : List Char) : Bool :=
  s == ['.'] || s.map Char.toLower == ['%', '2', 'e']

def isDoubleDot (s : List Char) : Bool :=
  let s := s.map Char.toLower
  s == ['.', '.'] || s == ['.', '%', '2', 'e'] || s == ['%', '2', 'e', '.']
    || s == ['%', '2', 'e', '%', '2', 'e']

/-- A letter and a colon or a bar: the name of a disk. -/
def isDriveLetter : List Char → Bool
  | [a, b] => a.isAlpha && (b == ':' || b == '|')
  | _ => false

/-- The segments in front of the parent directory; the name of a disk is not left. -/
def leave : List (List Char) → List (List Char)
  | [] => []
  | s :: ss => if isDriveLetter s then s :: ss else ss

/-- Resolves dots, on the segments so far in reverse order. A dot at the end leaves a slash. -/
def resolveDots (done : List (List Char)) : List (List Char) → List (List Char)
  | [] => done.reverse
  | s :: rest =>
    if isDoubleDot s then
      if rest.isEmpty then ([] :: leave done).reverse else resolveDots (leave done) rest
    else if isSingleDot s then
      if rest.isEmpty then ([] :: done).reverse else resolveDots done rest
    else resolveDots (s :: done) rest

/-- The parts of a text between slashes of either kind. -/
def splitSlashes (cs : List Char) : List (List Char) :=
  Host.splitAt '/' (cs.map fun c => if c == '\\' then '/' else c)

def readPath (cs : List Char) : List String :=
  (resolveDots [] ((splitSlashes cs).map (percentEncode pathSet))).map String.ofList

def endsAuthority (special : Bool) (c : Char) : Bool :=
  c == '/' || c == '?' || c == '#' || (special && c == '\\')

structure Authority where
  username : String
  password : Option String
  host : Host
  port : Option Nat
  deriving Repr

/-- What stands before the last `@`, if there is one, and what stands behind it. -/
def splitUser (cs : List Char) : Option (List Char) × List Char :=
  let behind := (cs.reverse.takeWhile (· != '@')).reverse
  if behind.length = cs.length then (none, cs)
  else (some (cs.take (cs.length - behind.length - 1)), behind)

/-- The user name and the password; a colon without anything behind it gives no password. -/
def readUser (cs : List Char) : String × Option String :=
  let name := cs.takeWhile (· != ':')
  let secret := (cs.dropWhile (· != ':')).drop 1
  (String.ofList (percentEncode userinfoSet name),
    if secret.isEmpty then none else some (String.ofList (percentEncode userinfoSet secret)))

/-- The host in front of a colon outside brackets, and what follows it. -/
def splitHost (inBrackets : Bool) : List Char → List Char × List Char
  | [] => ([], [])
  | c :: rest =>
    if c == ':' && !inBrackets then ([], c :: rest)
    else
      let (host, rest) := splitHost (if c == '[' then true else if c == ']' then false else inBrackets)
        rest
      (c :: host, rest)

/-- The port behind a colon: none, or digits of a number of 16 bits. -/
def readPort : List Char → Except UrlError (Option Nat)
  | ':' :: cs =>
    let digits := cs.takeWhile (· != '\\')
    if digits.isEmpty then .ok none
    else
      match readNat? digits with
      | some p => if p < UInt16.size then .ok (some p) else .error .badPort
      | none => .error .badPort
  | _ => .ok none

/-- The authority in front of a text, and what follows it. The usual port is left out. -/
def readAuthority [DomainMapping] (special : Bool) (usualPort : Option Nat) (cs : List Char) :
    Except UrlError (Authority × List Char) := do
  let part := cs.takeWhile (!endsAuthority special ·)
  let rest := cs.dropWhile (!endsAuthority special ·)
  let (user, address) := splitUser part
  if user = some [] && address.isEmpty && !rest.isEmpty then throw .emptyHost
  let (username, password) := match user with | some u => readUser u | none => ("", none)
  let (host, tail) := splitHost false address
  if special && host.isEmpty then throw .emptyHost
  let parsed ← if special then Host.parse host else Host.parseOpaque host
  if host.isEmpty && (!tail.isEmpty || username != "" || password.isSome) then throw .emptyHost
  let port ← readPort tail
  pure (⟨username, password, parsed, if port = usualPort then none else port⟩, rest)

def readScheme (cs : List Char) : Option (String × List Char) :=
  let isSchemeChar (c : Char) : Bool := c.isAlphanum || c == '+' || c == '-' || c == '.'
  let scheme := cs.takeWhile isSchemeChar
  match cs.dropWhile isSchemeChar with
  | ':' :: rest =>
    if scheme.head?.any Char.isAlpha then some (String.ofList (scheme.map Char.toLower), rest)
    else none
  | _ => none

/-- The usual ports of the schemes that are written like web addresses. -/
def usualPort? : String → Option Nat
  | "http" => some 80
  | "https" => some 443
  | "ws" => some 80
  | "wss" => some 443
  | "ftp" => some 21
  | _ => none

def readTarget (cs : List Char) : List String × Option String × Option String :=
  let path := cs.takeWhile fun c => c != '?' && c != '#'
  let rest := cs.dropWhile fun c => c != '?' && c != '#'
  let path := match path with | '/' :: p | '\\' :: p => p | p => p
  let query := match rest with
    | '?' :: q => some (String.ofList (percentEncode querySet (q.takeWhile (· != '#'))))
    | _ => none
  let fragment := match rest.dropWhile (· != '#') with
    | '#' :: f => some (String.ofList (percentEncode fragmentSet f))
    | _ => none
  (readPath path, query, fragment)

def checkFile [DomainMapping] (cs : List Char) : Except UrlError Unit :=
  let isSlash (c : Char) : Bool := c == '/' || c == '\\'
  match cs with
  | a :: b :: rest =>
    let host := rest.takeWhile fun c => !endsAuthority true c
    if isSlash a && isSlash b && !host.isEmpty && !isDriveLetter host then
      (Host.parse host).map fun _ => ()
    else .ok ()
  | _ => .ok ()

/-- What a text turns out to be: a web address, or a readable address of another scheme. -/
inductive Reading where
  | web (url : Url)
  | other (scheme : String)
  deriving Repr

/-- The text without what does not count in it. -/
def significant (cs : List Char) : List Char :=
  let isEdge (c : Char) : Bool := c ≤ ' '
  ((((cs.dropWhile isEdge).reverse.dropWhile isEdge).reverse).filter
    fun c => c != '\t' && c != '\n' && c != '\r')

def read [DomainMapping] (text : String) : Except UrlError Reading := do
  let (scheme, rest) ←
    match readScheme (significant text.toList) with
    | some r => Except.ok r
    | none => .error .noScheme
  match usualPort? scheme with
  | some usual =>
    let slashless := rest.dropWhile fun c => c == '/' || c == '\\'
    let (a, rest) ← readAuthority true (some usual) slashless
    let (path, query, fragment) := readTarget rest
    if scheme = "http" || scheme = "https" then
      pure (.web ⟨scheme, a.username, a.password, a.host, a.port, path, query, fragment⟩)
    else pure (.other scheme)
  | none =>
    if scheme = "file" then checkFile rest
    else
      match rest with
      | '/' :: '/' :: rest => discard (readAuthority false none rest)
      | _ => pure ()
    pure (.other scheme)

end FeedDesk.Url
