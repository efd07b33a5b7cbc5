import FeedDesk.Console.Help
import FeedDesk.Console.Run
import FeedDesk.Url.PlainDomain

/-!
# From a command line to an exit code

The program runs on plain domain names.
-/
namespace FeedDesk.Console

/-- What a command line leads to: the exit code, and the lines printed before the program ends. -/
structure Ending where
  code : Nat
  lines : List Line
  deriving DecidableEq, Repr, Inhabited

def refusedCode : Nat := 2

def runProgram {σ : Type} (transport : Transport σ) (env : Environment)
    (arguments : List String) (link : Link σ) : Ending × Link σ :=
  match readArguments arguments with
  | .refused => (⟨refusedCode, refusedLines.map .err⟩, link)
  | .help command => (⟨0, (helpLines command).map .out⟩, link)
  | .run invocation =>
    let (run, link) := runInvocation transport env invocation link
    (⟨run.exitCode, run.allLines⟩, link)

end FeedDesk.Console
