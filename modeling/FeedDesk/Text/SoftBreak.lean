/-!
# Soft line breaks in names

Release names have dots and underscores where other names have blanks. A soft break after each
of them lets a table cell wrap the name; a terminal takes the breaks out again.
-/
namespace FeedDesk.Text

/-- The zero-width space, where a line may end. -/
def softBreak : Char := '\u200b'

/-- A name may wrap after a dot or an underscore. -/
def wrapsAfter (c : Char) : Bool :=
  c == '.' || c == '_'

def insertBreaks (cs : List Char) : List Char :=
  cs.flatMap fun c => if wrapsAfter c then [c, softBreak] else [c]

/-- A name with soft breaks; a name that has no place for one is kept as it is. -/
def withSoftBreaks (name : String) : String :=
  if name.toList.any wrapsAfter then String.ofList (insertBreaks name.toList) else name

def withoutSoftBreaks (s : String) : String :=
  String.ofList (s.toList.filter (· != softBreak))

@[simp] theorem insertBreaks_nil : insertBreaks [] = [] := rfl

theorem insertBreaks_cons (c : Char) (cs : List Char) :
    insertBreaks (c :: cs) =
      (if wrapsAfter c then [c, softBreak] else [c]) ++ insertBreaks cs := rfl

@[simp] theorem insertBreaks_append (s t : List Char) :
    insertBreaks (s ++ t) = insertBreaks s ++ insertBreaks t := by
  simp [insertBreaks]

end FeedDesk.Text
