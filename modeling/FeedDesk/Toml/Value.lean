import FeedDesk.Number.Binary64
import FeedDesk.Toml.Moment

/-!
# TOML values

A table grows while its document is read, and how it came to be decides what may still be added
to it: a table with a header of its own gets no second header, and a table made by dotted keys
gets none at all. A table in braces is complete where it stands.
-/
namespace FeedDesk.Toml

inductive Origin where
  | header
  | implied
  | dotted
  | braces
  deriving DecidableEq, Repr

/-- A value. The elements of a list of tables are given last first. -/
inductive Value where
  | text (content : String)
  | integer (value : Int)
  | real (value : Number.Binary64)
  | boolean (value : Bool)
  | moment (value : Moment)
  | array (elements : List Value)
  | table (origin : Origin) (entries : List (String × Value))
  | tables (elements : List (List (String × Value)))
  deriving Repr, Inhabited

abbrev Table := List (String × Value)

namespace Table

def replace (t : Table) (key : String) (value : Value) : Table :=
  t.map fun e => if e.1 = key then (key, value) else e

/-- A table changed at the end of a path. Tables on the way that are missing are made; `origin`
says how. A path of dotted keys does not enter a table that has a header. -/
def changeAt (origin : Origin) (change : Origin → Table → Option Table) :
    List String → Origin → Table → Option Table
  | [], reached, t => change reached t
  | key :: path, _, t =>
    match t.lookup key with
    | none =>
      (changeAt origin change path origin []).map fun inner => t ++ [(key, .table origin inner)]
    | some (.table reached inner) =>
      if reached = .braces ∨ (origin = .dotted ∧ reached = .header) then none
      else
        (changeAt origin change path reached inner).map fun inner =>
          t.replace key (.table reached inner)
    | some (.tables (last :: earlier)) =>
      (changeAt origin change path .header last).map fun last =>
        t.replace key (.tables (last :: earlier))
    | some _ => none

def addNew (t : Table) (key : String) (value : Value) : Option Table :=
  if (t.lookup key).isSome then none else some (t ++ [(key, value)])

/-- A table with a value at a dotted key. The tables of the dots are shared by dotted keys only. -/
def addPair (path : List String) (key : String) (value : Value) : Origin → Table → Option Table :=
  changeAt .dotted
    (fun reached t => if (reached == .dotted) == path.isEmpty then none else t.addNew key value) path

def addHeader (path : List String) (key : String) (t : Table) : Option Table :=
  changeAt .implied
    (fun _ t =>
      match t.lookup key with
      | none => some (t ++ [(key, .table .header [])])
      | some (.table .implied inner) => some (t.replace key (.table .header inner))
      | some _ => none)
    path .header t

def addElement (path : List String) (key : String) (t : Table) : Option Table :=
  changeAt .implied
    (fun _ t =>
      match t.lookup key with
      | none => some (t ++ [(key, .tables [[]])])
      | some (.tables elements) => some (t.replace key (.tables ([] :: elements)))
      | some _ => none)
    path .header t

end Table

end FeedDesk.Toml
