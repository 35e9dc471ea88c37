import Filewise.Command
import Filewise.Config.Environment

/-!
# Help

The texts with which the program explains itself and its commands.

## Main definitions

* `HelpTopic.text`.
-/

namespace Filewise.HelpTopic

/-- A text of several lines. -/
def lines (texts : List String) : String := String.join (texts.map (· ++ "\n"))

/-- The explanation of a topic. -/
def text : HelpTopic → String
  | .program => lines
    ["Transform a source tree file by file, once per target",
      "",
      s!"Usage: {programName} <COMMAND>",
      "",
      "Commands:",
      "  build         Run the build",
      "  plan          Show every unit with its chain and output path",
      "  transformers  List registered transformers",
      "  help          Print this message or the help of the given subcommand(s)",
      "",
      "Options:",
      "  -h, --help  Print help"]
  | .build => lines
    ["Run the build",
      "",
      s!"Usage: {programName} build [OPTIONS]",
      "",
      "Options:",
      "  -c, --config <CONFIG>            Config file, layered over the default locations",
      "  -j, --concurrency <CONCURRENCY>  Worker threads",
      "      --report-json <REPORT_JSON>  Also write the report as JSON",
      "  -h, --help                       Print help"]
  | .plan => lines
    ["Show every unit with its chain and output path",
      "",
      s!"Usage: {programName} plan [OPTIONS]",
      "",
      "Options:",
      "  -c, --config <CONFIG>  ",
      "      --json             Print as JSON",
      "  -h, --help             Print help"]
  | .transformers => lines
    ["List registered transformers",
      "",
      s!"Usage: {programName} transformers",
      "",
      "Options:",
      "  -h, --help  Print help"]
  | .help => lines
    ["Print this message or the help of the given subcommand(s)",
      "",
      s!"Usage: {programName} help [COMMAND]...",
      "",
      "Arguments:",
      "  [COMMAND]...  Print help for the subcommand(s)"]

end Filewise.HelpTopic
