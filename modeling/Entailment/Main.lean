import Entailment.CommandLine.Run

/-!
# The program

Looks up what lies at the path of a command, runs the command, and prints what it prints.
-/

namespace Entailment.CommandLine

/-- What lies at the path of a command that asks for a document to be read. -/
def lookUp (path : String) : IO Source := do
  match ← (IO.FS.Handle.mk path .read).toBaseIO with
  | .error _ => return .absent
  | .ok handle =>
    match ← handle.readBinToEnd.toBaseIO with
    | .error _ => return .unreadable
    | .ok content => return .bytes content.toList

/-- Runs a command, after looking up the path that it names. -/
def perform (arguments : List String) : IO Output := do
  match Command.ofArguments arguments with
  | .ok (.solve path _ _ _ _) =>
    let source ← lookUp path
    return run arguments fun _ => source
  | _ => return run arguments fun _ => .absent

end Entailment.CommandLine

/-- Runs the command that the arguments give. -/
def main (arguments : List String) : IO UInt32 := do
  let output ← Entailment.CommandLine.perform arguments
  IO.print output.stdout
  IO.eprint output.stderr
  return output.code
