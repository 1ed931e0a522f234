import NetArray.CommandLine.Request

/-!
# Help

The texts that tell what can be asked for. The command that shows a design has a short text and a long
one, which also explains the formats.

* `Topic.text` is the help about a topic.
-/

namespace NetArray.CommandLine

/-- The lines on the options that all commands have. -/
def commonHelp : List String :=
  ["  -q, --quiet         Print nothing but errors",
    "  -v, --verbose...    More logging; repeat for trace output",
    "      --config <DIR>  Directory holding `bitgrid.toml`; the working directory if omitted",
    "  -h, --help          Print help"]

def programHelp : List String :=
  ["bitgrid array design explorer",
    "",
    "Usage: bitgrid [OPTIONS] <COMMAND>",
    "",
    "Commands:",
    "  list  List the reference designs",
    "  show  Build one design and print its IR",
    "  help  Print this message or the help of the given subcommand(s)",
    "",
    "Options:"] ++ commonHelp ++ ["  -V, --version       Print version"]

def listHelp : List String :=
  ["List the reference designs",
    "",
    "Usage: bitgrid list [OPTIONS]",
    "",
    "Options:"] ++ commonHelp

def showUsage : List String :=
  ["Build one design and print its IR",
    "",
    "Usage: bitgrid show [OPTIONS] <DESIGN>",
    "",
    "Arguments:"]

def showHelp : List String :=
  showUsage ++
  ["  <DESIGN>  Name of the design (see `bitgrid list`)",
    "",
    "Options:",
    "  -f, --format <FORMAT>  How to print the module [default: text] [possible values: text, json]",
    "  -q, --quiet            Print nothing but errors",
    "      --no-wire          Lower without barrier wires whatever the configuration says",
    "  -v, --verbose...       More logging; repeat for trace output",
    "      --config <DIR>     Directory holding `bitgrid.toml`; the working directory if omitted",
    "  -h, --help             Print help (see more with '--help')"]

def showLongHelp : List String :=
  showUsage ++
  ["  <DESIGN>",
    "          Name of the design (see `bitgrid list`)",
    "",
    "Options:",
    "  -f, --format <FORMAT>",
    "          How to print the module",
    "",
    "          Possible values:",
    "          - text: Textual IR dump",
    "          - json: The serialized module as JSON",
    "          ",
    "          [default: text]",
    "",
    "  -q, --quiet",
    "          Print nothing but errors",
    "",
    "      --no-wire",
    "          Lower without barrier wires whatever the configuration says",
    "",
    "  -v, --verbose...",
    "          More logging; repeat for trace output",
    "",
    "      --config <DIR>",
    "          Directory holding `bitgrid.toml`; the working directory if omitted",
    "",
    "  -h, --help",
    "          Print help (see a summary with '-h')"]

def helpHelp : List String :=
  ["Print this message or the help of the given subcommand(s)",
    "",
    "Usage: bitgrid help [COMMAND]...",
    "",
    "Arguments:",
    "  [COMMAND]...  Print help for the subcommand(s)"]

/-- The help about a topic. -/
def Topic.text (topic : Topic) (long : Bool) : String :=
  let lines := match topic, long with
    | .program, _ => programHelp
    | .list, _ => listHelp
    | .show, false => showHelp
    | .show, true => showLongHelp
    | .help, _ => helpHelp
  String.join (lines.map (· ++ "\n"))

end NetArray.CommandLine
