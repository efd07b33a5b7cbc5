import FeedDesk.Text.Ascii

/-!
# The name extension of queued items

Every item enters the download queue under a name that ends in `.nzb`, in whatever letter case.
The end of a name is taken by its UTF-8 size, as file names are measured, and a cut that would
fall inside a character counts as no extension.
-/
namespace FeedDesk.Text

def nzbExtension : List Char := ['.', 'n', 'z', 'b']

def utf8Length (cs : List Char) : Nat :=
  cs.foldr (fun c n => c.utf8Size + n) 0

/-- What is left of a text behind its first `n` bytes, if these end between two characters. -/
def dropBytes : Nat → List Char → Option (List Char)
  | 0, cs => some cs
  | _ + 1, [] => none
  | n + 1, c :: cs => if c.utf8Size ≤ n + 1 then dropBytes (n + 1 - c.utf8Size) cs else none

/-- Whether the last four bytes of a name are the extension. -/
def hasNzbExtension (name : List Char) : Bool :=
  utf8Length nzbExtension ≤ utf8Length name
    && (dropBytes (utf8Length name - utf8Length nzbExtension) name).any
        (sameLetters · nzbExtension)

/-- The name under which an item is queued: with the extension appended unless it is there. -/
def ensureNzbExtension (name : String) : String :=
  if hasNzbExtension name.toList then name else String.ofList (name.toList ++ nzbExtension)

end FeedDesk.Text
