import FeedDesk.Json.Basic
import FeedDesk.Json.Text

/-!
# Reading JSON

The reader takes a document of any depth off the front of a text. Its fuel bounds the number of
steps and not the depth: two steps for each character are enough for every document.
-/
namespace FeedDesk.Json

open Number

def isSpace (c : Char) : Bool :=
  c == ' ' || c == '\t' || c == '\n' || c == '\r'

def skipSpace (cs : List Char) : List Char := cs.dropWhile isSpace

def readDigits (cs : List Char) : List Nat × List Char :=
  ((cs.takeWhile Char.isDigit).map digitValue, cs.dropWhile Char.isDigit)

/-- Digits of an integer part: a zero alone, or no zero in front. -/
def isWholePart (ds : List Nat) : Bool :=
  match ds with
  | [] => false
  | d :: rest => d != 0 || rest.isEmpty

/-- The part behind a point: empty if there is no point, refused if no digit follows it. -/
def readFraction : List Char → Option (List Nat × List Char)
  | '.' :: cs =>
    let (ds, rest) := readDigits cs
    if ds.isEmpty then none else some (ds, rest)
  | cs => some ([], cs)

def readPowerDigits (sign : Int) (cs : List Char) : Option (Option Int × List Char) :=
  let (ds, rest) := readDigits cs
  if ds.isEmpty then none else some (some (sign * ofDigits 0 ds), rest)

def readPower : List Char → Option (Option Int × List Char)
  | 'e' :: '+' :: cs | 'E' :: '+' :: cs => readPowerDigits 1 cs
  | 'e' :: '-' :: cs | 'E' :: '-' :: cs => readPowerDigits (-1) cs
  | 'e' :: cs | 'E' :: cs => readPowerDigits 1 cs
  | cs => some (none, cs)

/-- The number in front of a text, behind its sign. -/
def readMagnitude (negative : Bool) (cs : List Char) : Option (NumberLiteral × List Char) := do
  let (whole, rest) := readDigits cs
  guard (isWholePart whole)
  let (fraction, rest) ← readFraction rest
  let (power, rest) ← readPower rest
  pure (⟨negative, whole, fraction, power⟩, rest)

def readNumber : List Char → Option (NumberLiteral × List Char)
  | '-' :: cs => readMagnitude true cs
  | cs => readMagnitude false cs

mutual

def readValue : Nat → List Char → Option (Json × List Char)
  | 0, _ => none
  | fuel + 1, cs =>
    match skipSpace cs with
    | 'n' :: 'u' :: 'l' :: 'l' :: rest => some (.null, rest)
    | 't' :: 'r' :: 'u' :: 'e' :: rest => some (.bool true, rest)
    | 'f' :: 'a' :: 'l' :: 's' :: 'e' :: rest => some (.bool false, rest)
    | '"' :: rest => (readText rest).map fun (t, rest) => (.text t, rest)
    | '[' :: rest =>
      match skipSpace rest with
      | ']' :: rest => some (.array [], rest)
      | rest => (readElements fuel rest).map fun (es, rest) => (.array es, rest)
    | '{' :: rest =>
      match skipSpace rest with
      | '}' :: rest => some (.object [], rest)
      | rest => (readMembers fuel rest).map fun (ms, rest) => (.object ms, rest)
    | rest => (readNumber rest).map fun (n, rest) => (.number n, rest)

def readElements : Nat → List Char → Option (List Json × List Char)
  | 0, _ => none
  | fuel + 1, cs =>
    match readValue fuel cs with
    | none => none
    | some (v, rest) =>
      match skipSpace rest with
      | ',' :: rest => (readElements fuel rest).map fun (vs, rest) => (v :: vs, rest)
      | ']' :: rest => some ([v], rest)
      | _ => none

def readMembers : Nat → List Char → Option (List (Option String × Json) × List Char)
  | 0, _ => none
  | fuel + 1, cs =>
    match skipSpace cs with
    | '"' :: rest =>
      match readText rest with
      | none => none
      | some (name, rest) =>
        match skipSpace rest with
        | ':' :: rest =>
          match readValue fuel rest with
          | none => none
          | some (v, rest) =>
            match skipSpace rest with
            | ',' :: rest => (readMembers fuel rest).map fun (ms, rest) => ((name, v) :: ms, rest)
            | '}' :: rest => some ([(name, v)], rest)
            | _ => none
        | _ => none
    | _ => none

end

/-- The document that a text holds, with nothing but white space around it. -/
def parse? (text : String) : Option Json :=
  let cs := text.toList
  match readValue (2 * cs.length + 2) cs with
  | some (v, rest) => if (skipSpace rest).isEmpty then some v else none
  | none => none

end FeedDesk.Json
