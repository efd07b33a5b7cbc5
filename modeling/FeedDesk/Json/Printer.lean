import FeedDesk.Json.Basic
import FeedDesk.Json.Text

/-!
# Writing JSON

A document is written without white space and with its members in order.
-/
namespace FeedDesk.Json

open Number

def writePower : Option Int → List Char
  | none => []
  | some p => 'e' :: (if p < 0 then '-' else '+') :: Nat.toDigits 10 p.natAbs

def writeNumber (n : NumberLiteral) : List Char :=
  (if n.negative then ['-'] else []) ++ n.whole.map digitChar
    ++ (if n.fraction.isEmpty then [] else '.' :: n.fraction.map digitChar) ++ writePower n.power

/-- A text, or an unpaired surrogate in place of one that has no content. -/
def writeContent : Option String → List Char
  | some s => writeText s.toList
  | none => ['"', '\\', 'u', 'd', '8', '0', '0', '"']

mutual

def write : Json → List Char
  | .null => ['n', 'u', 'l', 'l']
  | .bool true => ['t', 'r', 'u', 'e']
  | .bool false => ['f', 'a', 'l', 's', 'e']
  | .number n => writeNumber n
  | .text t => writeContent t
  | .array [] => ['[', ']']
  | .array (v :: vs) => '[' :: write v ++ writeElements vs ++ [']']
  | .object [] => ['{', '}']
  | .object ((name, v) :: ms) =>
    '{' :: writeContent name ++ ':' :: write v ++ writeMembers ms ++ ['}']

def writeElements : List Json → List Char
  | [] => []
  | v :: vs => ',' :: write v ++ writeElements vs

def writeMembers : List (Option String × Json) → List Char
  | [] => []
  | (name, v) :: ms => ',' :: writeContent name ++ ':' :: write v ++ writeMembers ms

end

def render (j : Json) : String := String.ofList (write j)

end FeedDesk.Json
