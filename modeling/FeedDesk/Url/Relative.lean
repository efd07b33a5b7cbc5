import FeedDesk.Url.Parser

/-!
# Relative addresses

The path of an address can be replaced, and a relative path leads from one address to another. Both
are read as a path in an address is read: what may not stand in a path is encoded, and dots are
resolved.
-/
namespace FeedDesk.Url

/-- An address with another path. All of the text is path, question marks and number signs too. -/
def withPath (u : Url) (path : String) : Url :=
  let cs := path.toList.filter fun c => c != '\t' && c != '\n' && c != '\r'
  { u with path := readPath (match cs with | '/' :: p | '\\' :: p => p | p => p) }

def asDirectory (u : Url) : Url :=
  if u.pathText.toList.getLast? = some '/' then u else u.withPath (u.pathText ++ "/")

/-- The address that a relative path leads to. The segments of the path take the place of the last
segment; query and fragment are not taken over. -/
def join (u : Url) (path : String) : Url :=
  let front := (u.path.dropLast.map String.toList).reverse
  let segments := (splitSlashes (significant path.toList)).map (percentEncode pathSet)
  { u with
    path := (resolveDots front segments).map String.ofList
    query := none
    fragment := none }

end FeedDesk.Url
