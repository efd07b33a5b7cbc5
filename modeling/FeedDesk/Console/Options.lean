/-!
# Command line options

A command takes options and words. An option begins with two hyphens; its value follows it, or an
equals sign behind its name. Two hyphens alone make all that follows words. What is given is read
from left to right, and the first thing that does not fit, or that asks for help, decides.
-/
namespace FeedDesk.Console

/-- How many values an option takes. A free value may look like an option itself; a series goes on
to the next option. -/
inductive Arity where
  | none
  | one
  | free
  | series
  deriving DecidableEq, Repr

/-- An option, and the values that it accepts. -/
structure OptionRule where
  name : String
  arity : Arity
  accepts : String → Bool := fun _ => true

/-- What a command takes: its options, and its words. The words of a command may also begin with
another command, which takes all the rest. -/
structure Grammar where
  options : List OptionRule
  words : List (String → Bool) := []
  endsAtWord : Bool := false

/-- What is given to a command. An option without a value is given with an empty one. -/
structure Given where
  options : List (String × String) := []
  words : List String := []
  deriving Repr, Inhabited

inductive Scan where
  | accepted (given : Given) (rest : List String)
  | help
  | refused
  deriving Repr, Inhabited

inductive Part where
  | separator
  | option (name : String) (value : Option String)
  | letters (text : List Char)
  | word

namespace Part

def nameAndValue (cs : List Char) : Part :=
  let name := String.ofList (cs.takeWhile (· != '='))
  match cs.dropWhile (· != '=') with
  | _ :: value => option name (some (String.ofList value))
  | [] => option name Option.none

/-- The form of a part. A single hyphen is a word. -/
def ofString (s : String) : Part :=
  match s.toList with
  | ['-', '-'] => separator
  | '-' :: '-' :: cs => nameAndValue cs
  | '-' :: c :: cs => letters (c :: cs)
  | _ => word

def isWord (s : String) : Bool :=
  match ofString s with
  | word => true
  | _ => false

end Part

namespace Given

def values (g : Given) (name : String) : List String :=
  (g.options.filter (·.1 == name)).map Prod.snd

def valueOr (g : Given) (name default : String) : String := ((g.values name).head?).getD default

def has (g : Given) (name : String) : Bool := g.options.any (·.1 == name)

/-- Adds an option. Only a series may be given more than once. -/
def addOption? (g : Given) (rule : OptionRule) (value : String) : Option Given :=
  if (rule.arity != .series && g.has rule.name) || !rule.accepts value then none
  else some { g with options := g.options ++ [(rule.name, value)] }

def addWord? (grammar : Grammar) (g : Given) (word : String) : Option Given :=
  match grammar.words[g.words.length]? with
  | some accepts => if accepts word then some { g with words := g.words ++ [word] } else none
  | none => none

end Given

def scanWords (grammar : Grammar) (given : Given) : List String → Scan
  | [] => .accepted given []
  | word :: rest =>
    match given.addWord? grammar word with
    | some given => scanWords grammar given rest
    | none => .refused

/-- Reads what is given to a command; `series` is the option whose values are being read. -/
def scan (grammar : Grammar) (series : Option OptionRule) (given : Given) : List String → Scan
  | [] => .accepted given []
  | part :: rest =>
    match Part.ofString part with
    | .separator => scanWords grammar given rest
    | .letters ('h' :: _) => .help
    | .letters _ => .refused
    | .word =>
      match series with
      | some rule =>
        match given.addOption? rule part with
        | some given => scan grammar series given rest
        | none => .refused
      | none =>
        if grammar.endsAtWord then .accepted given (part :: rest)
        else
          match given.addWord? grammar part with
          | some given => scan grammar none given rest
          | none => .refused
    | .option "help" none => .help
    | .option name value =>
      match grammar.options.find? (·.name == name) with
      | none => .refused
      | some rule =>
        match rule.arity, value with
        | .none, some _ => .refused
        | .none, none =>
          match given.addOption? rule "" with
          | some given => scan grammar none given rest
          | none => .refused
        | _, some value =>
          match given.addOption? rule value with
          | some given => scan grammar none given rest
          | none => .refused
        | arity, none =>
          match rest with
          | [] => .refused
          | value :: rest =>
            if arity != .free && !Part.isWord value then .refused
            else
              match given.addOption? rule value with
              | some given =>
                scan grammar (if arity = .series then some rule else none) given rest
              | none => .refused

end FeedDesk.Console
