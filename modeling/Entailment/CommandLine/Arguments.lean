import Entailment.Settings

/-!
# Arguments of the command line

A command names a path and an algorithm, in this order, with options anywhere between them. Single
letters may share one dash. An option is given at most once, and `--` ends the options.

Arguments are looked at from left to right: what comes first, a fault or a request for the version
or for help, decides.
-/

namespace Entailment.CommandLine

/-- A fault in the arguments. -/
inductive UsageError
  | unknownOption (argument : String)
  | repeatedOption (name : String)
  /-- A value was given to an option that takes none. -/
  | needlessValue (name : String)
  | missingConvention
  | invalidConvention (value : String)
  | emptyPath
  | extraArgument (argument : String)
  | missingPath
  | missingAlgorithm
deriving DecidableEq

/-- The wording of the fault. -/
def UsageError.message : UsageError → String
  | unknownOption argument => s!"unexpected argument '{argument}'"
  | repeatedOption name => s!"the option '--{name}' is given more than once"
  | needlessValue name => s!"the option '--{name}' takes no value"
  | missingConvention => "the option '--convention' needs a value"
  | invalidConvention value => s!"invalid value '{value}' for the option '--convention'"
  | emptyPath => "the path is empty"
  | extraArgument argument => s!"unexpected argument '{argument}'"
  | missingPath => "no path is given"
  | missingAlgorithm => "no algorithm is given"

/-- The arguments looked at so far. -/
structure Arguments where
  path : Option String := none
  algorithm : Option String := none
  debug : Bool := false
  noAgenda : Bool := false
  convention : Option Convention := none
deriving DecidableEq

/-- What a command asks for. -/
inductive Command
  /-- Answer the query of the document at a path. -/
  | solve (path algorithm : String) (debug noAgenda : Bool) (convention : Option Convention)
  | version
  | help
deriving DecidableEq

/-- Whether the arguments looked at settle what is asked for. -/
abbrev Step := Except UsageError (Arguments ⊕ Command)

namespace Arguments

/-- Asks for details. -/
def setDebug (a : Arguments) : Except UsageError Arguments :=
  if a.debug then .error (.repeatedOption "debug") else .ok { a with debug := true }

/-- Asks for forward chaining to leave its agenda out of the report. -/
def setNoAgenda (a : Arguments) : Except UsageError Arguments :=
  if a.noAgenda then .error (.repeatedOption "no-agenda") else .ok { a with noAgenda := true }

/-- Chooses a convention, whose name must be spelt exactly. -/
def setConvention (a : Arguments) (value : String) : Except UsageError Arguments :=
  match Convention.all.find? (·.name = value), a.convention with
  | none, _ => .error (.invalidConvention value)
  | some _, some _ => .error (.repeatedOption "convention")
  | some convention, none => .ok { a with convention := some convention }

/-- Adds an argument that is no option: the path, and then the algorithm. -/
def addPositional (a : Arguments) (argument : String) : Except UsageError Arguments :=
  match a.path, a.algorithm with
  | none, _ =>
    if argument.isEmpty then .error .emptyPath else .ok { a with path := some argument }
  | some _, none => .ok { a with algorithm := some argument }
  | some _, some _ => .error (.extraArgument argument)

/-- Looks at an option that is spelt out, with the value after its equals sign, if it has one.
Giving a convention by the next argument is left to `look`. -/
def addLong (a : Arguments) (name : String) (value : Option String) : Step :=
  match name, value with
  | "convention", some value => return .inl (← a.setConvention value)
  | "debug", none => return .inl (← a.setDebug)
  | "no-agenda", none => return .inl (← a.setNoAgenda)
  | "version", none => return .inr .version
  | "help", none => return .inr .help
  | "convention", none => throw .missingConvention
  | name, some _ =>
    if name ∈ ["debug", "no-agenda", "version", "help"] then throw (.needlessValue name)
    else throw (.unknownOption ("--" ++ name))
  | name, none => throw (.unknownOption ("--" ++ name))

/-- Looks at options of one letter, behind one dash. -/
def addShort (a : Arguments) : List Char → Step
  | [] => return .inl a
  | 'd' :: letters => do addShort (← a.setDebug) letters
  | 'V' :: _ => return .inr .version
  | 'h' :: _ => return .inr .help
  | letter :: _ => throw (.unknownOption (String.ofList ['-', letter]))

/-- The command that the arguments amount to once all were looked at. -/
def finish (a : Arguments) : Except UsageError Command :=
  match a.path, a.algorithm with
  | some path, some algorithm =>
    .ok (.solve path algorithm a.debug a.noAgenda a.convention)
  | none, _ => .error .missingPath
  | some _, none => .error .missingAlgorithm

end Arguments

/-- What an argument looks like. -/
inductive Shape
  /-- The mark that ends the options. -/
  | endOfOptions
  | long (name : String) (value : Option String)
  | short (letters : List Char)
  | positional
deriving DecidableEq

/-- What an argument looks like. A single dash is no option. -/
def shapeOf (argument : String) : Shape :=
  match argument.toList with
  | ['-', '-'] => .endOfOptions
  | '-' :: '-' :: rest =>
    let name := String.ofList (rest.takeWhile (· != '='))
    match rest.dropWhile (· != '=') with
    | [] => .long name none
    | _ :: value => .long name (some (String.ofList value))
  | '-' :: letter :: letters => .short (letter :: letters)
  | _ => .positional

/-- Looks at arguments behind the end of the options. -/
def lookBehind (a : Arguments) : List String → Except UsageError Command
  | [] => a.finish
  | argument :: rest => do lookBehind (← a.addPositional argument) rest

/-- Looks at the arguments, from left to right. -/
def look (a : Arguments) : List String → Except UsageError Command
  | [] => a.finish
  | argument :: rest =>
    match shapeOf argument, rest with
    | .long "convention" none, value :: rest =>
      if shapeOf value = .positional then do look (← a.setConvention value) rest
      else throw .missingConvention
    | .endOfOptions, rest => lookBehind a rest
    | .positional, rest => do look (← a.addPositional argument) rest
    | .long name value, rest => do
      match ← a.addLong name value with
      | .inl a => look a rest
      | .inr command => return command
    | .short letters, rest => do
      match ← a.addShort letters with
      | .inl a => look a rest
      | .inr command => return command

/-- The command that the arguments give. -/
def Command.ofArguments (arguments : List String) : Except UsageError Command :=
  look {} arguments

end Entailment.CommandLine
