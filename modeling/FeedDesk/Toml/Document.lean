import FeedDesk.Toml.Number
import FeedDesk.Toml.Text

/-!
# TOML documents

A document is a sequence of lines: pairs of a key and a value, and headers that name the table
the pairs behind them belong to. Values nest up to a fixed depth. The fuel of the readers bounds
their steps: a step or two for each character are enough for every document.
-/
namespace FeedDesk.Toml

def nestingLimit : Nat := 79

mutual

/-- The value in front; `room` is the depth that is left. -/
def readValue (room : Nat) : Nat → List Char → Option (Value × List Char)
  | 0, _ => none
  | fuel + 1, cs =>
    match cs, room with
    | 't' :: 'r' :: 'u' :: 'e' :: rest, _ => some (.boolean true, rest)
    | 'f' :: 'a' :: 'l' :: 's' :: 'e' :: rest, _ => some (.boolean false, rest)
    | '"' :: rest, _ => (readText ('"' :: rest)).map fun (t, rest) => (.text t, rest)
    | '\'' :: rest, _ => (readText ('\'' :: rest)).map fun (t, rest) => (.text t, rest)
    | '[' :: rest, room + 1 =>
      match skipFiller false rest with
      | ']' :: rest => some (.array [], rest)
      | rest => (readElements room fuel rest).map fun (vs, rest) => (.array vs, rest)
    | '{' :: rest, room + 1 =>
      match skipSpace rest with
      | '}' :: rest => some (.table .braces [], rest)
      | rest => (readMembers room fuel [] rest).map fun (t, rest) => (.table .braces t, rest)
    | cs, _ => readNumber cs

/-- One or more elements, perhaps a comma, and the bracket that closes them. -/
def readElements (room : Nat) : Nat → List Char → Option (List Value × List Char)
  | 0, _ => none
  | fuel + 1, cs =>
    match readValue room fuel cs with
    | none => none
    | some (v, rest) =>
      match skipFiller false rest with
      | ']' :: rest => some ([v], rest)
      | ',' :: rest =>
        match skipFiller false rest with
        | ']' :: rest => some ([v], rest)
        | rest => (readElements room fuel rest).map fun (vs, rest) => (v :: vs, rest)
      | _ => none

def readMembers (room : Nat) : Nat → Table → List Char → Option (Table × List Char)
  | 0, _, _ => none
  | fuel + 1, t, cs =>
    match readKey cs with
    | some (path, key, '=' :: rest) =>
      match readValue room fuel (skipSpace rest) with
      | none => none
      | some (v, rest) =>
        match t.addPair path key v .header with
        | none => none
        | some t =>
          match skipSpace rest with
          | '}' :: rest => some (t, rest)
          | ',' :: rest => readMembers room fuel t rest
          | _ => none
    | _ => none

end

/-- A document as far as it is read: its tables, and the path of the table that pairs go to. -/
structure Draft where
  root : Table := []
  current : List String := []

namespace Draft

def addPair (d : Draft) (path : List String) (key : String) (value : Value) : Option Draft :=
  (d.root.changeAt .implied (Table.addPair path key value) d.current .header).map fun root =>
    { d with root }

def addHeader (d : Draft) (path : List String) (key : String) : Option Draft :=
  (d.root.addHeader path key).map fun root => ⟨root, path ++ [key]⟩

def addElement (d : Draft) (path : List String) (key : String) : Option Draft :=
  (d.root.addElement path key).map fun root => ⟨root, path ++ [key]⟩

end Draft

def readHeader (d : Draft) : List Char → Option (Draft × List Char)
  | '[' :: rest =>
    match readKey rest with
    | some (path, key, ']' :: ']' :: rest) => do pure (← d.addElement path key, ← afterLine? rest)
    | _ => none
  | rest =>
    match readKey rest with
    | some (path, key, ']' :: rest) => do pure (← d.addHeader path key, ← afterLine? rest)
    | _ => none

def readPair (fuel : Nat) (d : Draft) (cs : List Char) : Option (Draft × List Char) :=
  match readKey cs with
  | some (path, key, '=' :: rest) => do
    let (value, rest) ← readValue nestingLimit fuel (skipSpace rest)
    pure (← d.addPair path key value, ← afterLine? rest)
  | _ => none

/-- The lines of a document, behind those already read. -/
def readLines (d : Draft) : Nat → List Char → Option Table
  | 0, _ => none
  | fuel + 1, cs =>
    match skipSpace cs with
    | [] => some d.root
    | '#' :: rest => (afterLine? ('#' :: rest)).bind fun rest => readLines d fuel rest
    | '[' :: rest => (readHeader d rest).bind fun (d, rest) => readLines d fuel rest
    | rest =>
      match afterNewline? rest with
      | some rest => readLines d fuel rest
      | none => (readPair (fuel + 1) d rest).bind fun (d, rest) => readLines d fuel rest

/-- The table that a text holds. A byte order mark in front does not count. -/
def parse? (text : String) : Option Table :=
  let cs := match text.toList with
    | '\ufeff' :: cs => cs
    | cs => cs
  readLines {} (2 * cs.length + 2) cs

end FeedDesk.Toml
