import FeedDesk.Console.Options
import FeedDesk.Feed.Source
import FeedDesk.Feed.Status
import FeedDesk.Number.Decimal

/-!
# Commands

The program lists the saved feeds, asks the server to refresh all feeds, and shows the items of a
saved feed or of a feed that is tried out. A view may also send items: those of some addresses, or
all that are shown.
-/
namespace FeedDesk.Console

structure ViewOptions where
  status : StatusFilter := .all
  filenames : Bool := false
  select : List String := []
  selectVisible : Bool := false
  retries : Nat := 0
  deriving DecidableEq, Repr, Inhabited

def ViewOptions.wantsFetch (o : ViewOptions) : Bool := o.selectVisible || !o.select.isEmpty

inductive Command where
  | feeds
  | fetchAll
  | view (id : UInt32) (options : ViewOptions)
  | preview (feed : PreviewFeed) (options : ViewOptions)
  deriving Repr, Inhabited

/-- A command with the settings that it overrides. -/
structure Invocation where
  config : Option String := none
  server : Option String := none
  command : Command
  deriving Repr, Inhabited

inductive Request where
  | run (invocation : Invocation)
  | help (command : Option String)
  | refused
  deriving Repr, Inhabited

def readUInt32? (s : String) : Option Nat :=
  (Number.readIntIn? 0 (Int.pow 2 32 - 1) s.toList).map Int.toNat

/-- The options that stand before the command. -/
def mainGrammar : Grammar where
  options := [⟨"config", .one, (· != "")⟩, { name := "server", arity := .one }]
  endsAtWord := true

def viewRules : List OptionRule :=
  [⟨"status", .one, fun s => (StatusFilter.ofWord? s).isSome⟩,
    { name := "filenames", arity := .none },
    { name := "select", arity := .series },
    { name := "select-visible", arity := .none },
    ⟨"retry", .one, fun s => (readUInt32? s).isSome⟩]

def previewRules : List OptionRule :=
  [{ name := "url", arity := .one }, { name := "name", arity := .one },
    { name := "filter", arity := .one }, { name := "category", arity := .one },
    { name := "priority", arity := .free }]

def grammarOf? : String → Option Grammar
  | "feeds" | "fetch-all" => some { options := [] }
  | "view" => some { options := viewRules, words := [fun s => (readUInt32? s).isSome] }
  | "preview" => some { options := previewRules ++ viewRules }
  | _ => none

def viewOptions (g : Given) : ViewOptions where
  status := (StatusFilter.ofWord? (g.valueOr "status" "all")).getD .all
  filenames := g.has "filenames"
  select := g.values "select"
  selectVisible := g.has "select-visible"
  retries := (readUInt32? (g.valueOr "retry" "0")).getD 0

def previewFeed (g : Given) : PreviewFeed where
  name := g.valueOr "name" ""
  url := g.valueOr "url" ""
  filter := g.valueOr "filter" ""
  category := g.valueOr "category" ""
  priority := g.valueOr "priority" ""

def commandOf? (name : String) (g : Given) : Option Command :=
  match name, g.words with
  | "feeds", _ => some .feeds
  | "fetch-all", _ => some .fetchAll
  | "view", id :: _ => (readUInt32? id).map fun n => .view (UInt32.ofNat n) (viewOptions g)
  | "preview", _ => if g.has "url" then some (.preview (previewFeed g) (viewOptions g)) else none
  | _, _ => none

/-- What the words behind `help` ask for. -/
def helpRequest : List String → Request
  | [] => .help none
  | name :: _ => if (grammarOf? name).isSome || name = "help" then .help (some name) else .refused

def readArguments (arguments : List String) : Request :=
  match scan mainGrammar none {} arguments with
  | .help => .help none
  | .accepted main (name :: rest) =>
    if name = "help" then helpRequest rest
    else
      match grammarOf? name with
      | none => .refused
      | some grammar =>
        match scan grammar none {} rest with
        | .help => .help (some name)
        | .refused => .refused
        | .accepted given _ =>
          match commandOf? name given with
          | none => .refused
          | some command =>
            .run ⟨(main.values "config").head?, (main.values "server").head?, command⟩
  | _ => .refused

end FeedDesk.Console
