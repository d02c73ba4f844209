import Entailment.CommandLine.Arguments
import Entailment.Session

/-!
# Running a command

A command answers the query of a document. It prints one line, with the verdict in colour, and
before it, if asked to, the knowledge base, the query and the details of the answer. What lies at a
path is given by a function, so that running a command is a function of its arguments.
-/

namespace Entailment.CommandLine

/-- What lies at a path. -/
inductive Source
  /-- Nothing that can be opened. -/
  | absent
  /-- Something that opens but cannot be read, such as a directory. -/
  | unreadable
  | bytes (content : List UInt8)
deriving DecidableEq

/-- What a command prints, and the code it ends with. -/
structure Output where
  code : UInt32 := 0
  stdout : String := ""
  stderr : String := ""
deriving DecidableEq

/-- The name and the version of the program. -/
def versionText : String :=
  "iengine 0.1.0"

/-- How to use the program. -/
def helpText : String :=
  "\n".intercalate [
    "Determines whether a knowledge base entails a query",
    "",
    "Usage: iengine [OPTIONS] <path> <algorithm>",
    "",
    "Arguments:",
    "  <path>       The document to read",
    "  <algorithm>  The algorithm to use, one of: TT, FC, BC, DPLL",
    "",
    "Options:",
    "  -d, --debug                    Show the details of the answer",
    "      --convention <convention>  How DPLL answers a query: refutation or consistency",
    "      --no-agenda                Report only what forward chaining took from its agenda",
    "  -h, --help                     Show this text",
    "  -V, --version                  Show the version"]

/-- The escape sequence that sets the colour of the text to one of the 256 of a terminal. -/
def setColour (number : Nat) : String :=
  s!"\x1b[38;5;{number}m"

/-- The escape sequence that goes back to the usual colour. -/
def resetColour : String :=
  "\x1b[39m"

/-- A verdict in its colour: green if the query was found, and red if not. -/
def colouredVerdict (found : Bool) : String :=
  setColour (if found then 10 else 9) ++ verdict found ++ resetColour

/-- The line of a report, with the verdict in its colour. -/
def colouredLine (r : Report) : String :=
  colouredVerdict r.found ++ r.remark

/-- Loads a document into a session. -/
def load (s : Session) (path : String) (source : Source) : Except Error Session :=
  match source with
  | .absent => .error (.document (.cannotOpen path))
  | .unreadable => .error (.document (.unreadableLine 1))
  | .bytes content =>
    match s.load content with
    | (.ok _, s) => .ok s
    | (.error e, _) => .error e

/-- What is known before the query is answered: the knowledge base and the query. -/
def premises (s : Session) : String :=
  let query := match s.query with
    | some query => s!"Query:\n{query.text}\n\n"
    | none => ""
  s!"{s.kb.text}\n{query}"

/-- Answers the query of a session that has been loaded. -/
def answer (s : Session) (debug : Bool) : Output :=
  let before := if debug then premises s else ""
  match s.solve with
  | .error e => { code := 1, stdout := before, stderr := e.message ++ "\n" }
  | .ok report =>
    let details := if debug then report.details ++ "\n\n" else ""
    { stdout := before ++ details ++ colouredLine report ++ "\n" }

/-- Answers the query of the document at a path. The algorithm is looked up before the document. -/
def solve (path algorithm : String) (debug noAgenda : Bool) (convention : Option Convention)
    (source : String → Source) : Output :=
  match Algorithm.ofName algorithm with
  | .error e => { code := 1, stderr := e.message ++ "\n" }
  | .ok a =>
    let settings := (({} : Settings).withAlgorithm a).withAgenda !noAgenda
    let settings := match convention with
      | some c => settings.withConvention c
      | none => settings
    match load { settings } path (source path) with
    | .error e => { code := 1, stderr := s!"Error loading {path}: {e.message}\n" }
    | .ok s => answer s debug

/-- Runs the command that the arguments give. -/
def run (arguments : List String) (source : String → Source) : Output :=
  match Command.ofArguments arguments with
  | .error e => { code := 2, stderr := s!"error: {e.message}\n\n{helpText}\n" }
  | .ok .version => { stdout := versionText ++ "\n" }
  | .ok .help => { stdout := helpText ++ "\n" }
  | .ok (.solve path algorithm debug noAgenda convention) =>
    solve path algorithm debug noAgenda convention source

end Entailment.CommandLine
