import FeedDesk.Host.Call
import FeedDesk.Text.Column
import FeedDesk.Text.Control

/-!
# What the program prints

Notices go to the standard output; alerts, progress and the error that ends the program go to the
standard error. An error is printed with the errors behind it, numbered if there are several.
-/
namespace FeedDesk.Console

/-- A piece of output, without the line end behind it. -/
inductive Line where
  | out (text : String)
  | err (text : String)
  deriving DecidableEq, Repr, Inhabited

/-- An error that ends the program, and the errors behind it, outermost first. -/
structure Failure where
  message : String
  causes : List String := []
  deriving DecidableEq, Repr, Inhabited

/-- What the terminal prints on a call. Only messages are printed as they come; the table is
printed when it is asked for. -/
def hostLines : HostCall → List Line
  | .notify notice => [.out notice.text]
  | .alert title message => [.err (title ++ ": " ++ Text.stripControl message)]
  | .transmit true => [.err "Transmitting..."]
  | .progress done total => [.err ("[" ++ Nat.repr done ++ "/" ++ Nat.repr total ++ "]")]
  | _ => []

/-- A text whose lines after the first are indented. -/
def indentLines (indent : String) (text : String) : String :=
  String.ofList (text.toList.flatMap fun c => if c = '\n' then '\n' :: indent.toList else [c])

def numberedCause (number : Nat) (text : String) : String :=
  "\n" ++ Text.alignRight 5 (Nat.repr number) ++ ": " ++ indentLines "       " text

def causesText : List String → String
  | [] => ""
  | [cause] => "\n\nCaused by:\n    " ++ indentLines "    " cause
  | causes =>
    "\n\nCaused by:" ++ String.join (causes.zipIdx.map fun (text, number) => numberedCause number text)

def Failure.text (f : Failure) : String := "Error: " ++ f.message ++ causesText f.causes

def joinLines (lines : List String) : String := String.join (lines.map (· ++ "\n"))

def stdoutText (lines : List Line) : String :=
  joinLines (lines.filterMap fun | .out text => some text | .err _ => none)

def stderrText (lines : List Line) : String :=
  joinLines (lines.filterMap fun | .err text => some text | .out _ => none)

end FeedDesk.Console
