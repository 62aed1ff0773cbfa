import SoloRun.Text.Utf8

/-!
The help pages of the command line, in colour if asked for.
-/

namespace SoloRun.CommandLine

inductive Page where
  | overview
  | testLogs
  | help
  deriving DecidableEq, Repr

/-- A piece of a help page by the part it plays. -/
inductive Span where
  | plain (text : String)
  | heading (text : String)
  | literal (text : String)
  | placeholder (text : String)
  deriving DecidableEq, Repr

namespace Span

def tinted (colour : Bool) (opening text : String) : String :=
  if colour then opening ++ text ++ "\x1b[0m" else text

def text (colour : Bool) : Span → String
  | .plain text => text
  | .heading text => tinted colour "\x1b[1m\x1b[32m" text
  | .literal text => tinted colour "\x1b[1m\x1b[36m" text
  | .placeholder text => tinted colour "\x1b[36m" text

end Span

namespace Page

def about : String :=
  "Run every test of the workspace in isolation and write timestamped logs"

def overviewSpans : List Span :=
  [.plain "Configuration for the test-logs subcommand\n\n",
    .heading "Usage:", .plain " ", .literal "cargo", .plain " ", .placeholder "<COMMAND>",
    .plain "\n\n", .heading "Commands:", .plain "\n  ", .literal "test-logs",
    .plain ("  " ++ about ++ "\n  "), .literal "help",
    .plain "       Print this message or the help of the given subcommand(s)\n\n",
    .heading "Options:", .plain "\n  ", .literal "-h", .plain ", ", .literal "--help",
    .plain "  Print help\n"]

/-- An option that takes a value, on a line of its own, and what it is for below. -/
def option (name value purpose : String) : List Span :=
  [.plain "      ", .literal name, .placeholder " ", .placeholder value,
    .plain ("\n          " ++ purpose ++ "\n")]

def flag (letter name purpose : String) : List Span :=
  [.plain "  ", .literal letter, .plain ", ", .literal name,
    .plain ("\n          " ++ purpose ++ "\n")]

def testLogsSpans : List Span :=
  [.plain (about ++ "\n\n"), .heading "Usage:", .plain " ", .literal "cargo test-logs",
    .plain " ", .placeholder "[OPTIONS]", .plain "\n\n", .heading "Options:", .plain "\n"] ++
  option "--manifest-path" "<PATH>" "Path to Cargo.toml" ++
  option "--log-dir" "<LOG_DIR>"
    ("Directory that receives one timestamped folder per run " ++
      "[default: <workspace>/test_logs]") ++
  option "--integration-test" "<INTEGRATION_TEST>"
    "Name of the integration test target [default: integration_tests]" ++
  option "--property-test" "<PROPERTY_TEST>"
    "Name of the property test target [default: prop_tests]" ++
  flag "-v" "--verbose" "Display the output of every test while running" ++
  flag "-j" "--json" "Output progress in JSON format for machine consumption" ++
  flag "-h" "--help" "Print help" ++
  flag "-V" "--version" "Print version"

def helpSpans : List Span :=
  [.plain "Print this message or the help of the given subcommand(s)\n\n",
    .heading "Usage:", .plain " ", .literal "cargo help", .plain " ",
    .placeholder "[COMMAND]...", .plain "\n\n", .heading "Arguments:", .plain "\n  ",
    .placeholder "[COMMAND]...", .plain "  Print help for the subcommand(s)\n"]

def spans : Page → List Span
  | .overview => overviewSpans
  | .testLogs => testLogsSpans
  | .help => helpSpans

def text (colour : Bool) (page : Page) : String :=
  String.join (page.spans.map (·.text colour))

end Page

def version : String := "cargo-test-logs 0.1.0\n"

end SoloRun.CommandLine
