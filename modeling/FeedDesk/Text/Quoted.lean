import FeedDesk.Number.Decimal
import FeedDesk.Text.Visible

/-!
# Quoted texts

A text in a description stands in double quotes and on one line. Quotes, backslashes and the
common control characters are escaped by a letter, and what cannot be seen by its number.
-/
namespace FeedDesk.Text

def quoteChar (c : Char) : List Char :=
  if c = '\x00' then ['\\', '0']
  else if c = '\t' then ['\\', 't']
  else if c = '\n' then ['\\', 'n']
  else if c = '\r' then ['\\', 'r']
  else if c = '"' then ['\\', '"']
  else if c = '\\' then ['\\', '\\']
  else if isVisible c then [c]
  else ['\\', 'u', '\x7b'] ++ Nat.toDigits 16 c.toNat ++ ['\x7d']

def quoted (s : String) : String :=
  String.ofList ('"' :: s.toList.flatMap quoteChar ++ ['"'])

def quotedOption : Option String → String
  | some s => "Some(" ++ quoted s ++ ")"
  | none => "None"

def redacted : String := "[REDACTED]"

/-- Names and descriptions of members, in braces behind the name of what has them. -/
def describe (name : String) (members : List (String × String)) : String :=
  name ++ " \x7b " ++ ", ".intercalate (members.map fun m => m.1 ++ ": " ++ m.2) ++ " \x7d"

end FeedDesk.Text
