import FeedDesk.Console.Report

/-!
# Help

What the program says of itself and of its commands.
-/
namespace FeedDesk.Console

def viewHelp : List String :=
  ["      --status <STATUS>  Status filter: all, new, fetched or backlog [default: all]",
    "      --filenames        Show filenames instead of titles",
    "      --select <URL>...  Enqueue the items with these URLs",
    "      --select-visible   Enqueue every item shown by the status filter",
    "      --retry <N>        Retry a halted batch up to N times [default: 0]",
    "  -h, --help             Print help"]

def helpLines : Option String → List String
  | some "feeds" =>
    ["List the feeds configured on the server", "", "Usage: nzbfeed feeds", "", "Options:",
      "  -h, --help  Print help"]
  | some "fetch-all" =>
    ["Ask the server to refresh every feed now", "", "Usage: nzbfeed fetch-all", "", "Options:",
      "  -h, --help  Print help"]
  | some "view" =>
    ["Show the items of a saved feed", "", "Usage: nzbfeed view [OPTIONS] <ID>", "", "Arguments:",
      "  <ID>  Feed number as listed by \x60feeds\x60", "", "Options:"] ++ viewHelp
  | some "preview" =>
    ["Show the items of a feed definition without saving it", "",
      "Usage: nzbfeed preview [OPTIONS] --url <URL>", "", "Options:",
      "      --url <URL>",
      "      --name <NAME>          [default: ]",
      "      --filter <FILTER>      Feed filter expression [default: ]",
      "      --category <CATEGORY>  [default: ]",
      "      --priority <PRIORITY>  [default: ]"] ++ viewHelp
  | _ =>
    ["View, preview and fetch NZBGet feed items", "", "Usage: nzbfeed [OPTIONS] <COMMAND>", "",
      "Commands:",
      "  feeds      List the feeds configured on the server",
      "  fetch-all  Ask the server to refresh every feed now",
      "  view       Show the items of a saved feed",
      "  preview    Show the items of a feed definition without saving it",
      "  help       Print this message or the help of the given subcommand(s)", "",
      "Options:",
      "      --config <FILE>  Config file (default: ~/.config/nzbfeed/config.toml)",
      "      --server <URL>   Server URL, overrides \x60server_url\x60 from the config file",
      "  -h, --help           Print help"]

def refusedLines : List String :=
  ["error: the arguments do not fit", "", "For more information, try '--help'."]

end FeedDesk.Console
