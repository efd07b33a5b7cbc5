/-!
# Table columns

A cell is filled up with blanks to the width of its column, counted in characters. A text wider
than its column is left whole.
-/
namespace FeedDesk.Text

def fill (width : Nat) (s : String) : List Char :=
  List.replicate (width - s.toList.length) ' '

def alignLeft (width : Nat) (s : String) : String :=
  String.ofList (s.toList ++ fill width s)

def alignRight (width : Nat) (s : String) : String :=
  String.ofList (fill width s ++ s.toList)

end FeedDesk.Text
