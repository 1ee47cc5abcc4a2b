import BoxDiagram.Text.Blank

/-!
# The command line

Options come as `--name value` or `--name=value`; each at most once. They say how clients reach the
tools, where new files go, and how much is logged.
-/

namespace BoxDiagram

inductive CommandOption where
  | transport
  | address
  | endpoint
  | outputDirectory
  | logLevel
  deriving DecidableEq, Repr

namespace CommandOption

def all : List CommandOption := [transport, address, endpoint, outputDirectory, logLevel]

def name : CommandOption → String
  | transport => "--transport"
  | address => "--addr"
  | endpoint => "--endpoint-path"
  | outputDirectory => "--output-dir"
  | logLevel => "--log-level"

/-- The option with a name. -/
def ofName? (name : String) : Option CommandOption := all.find? (·.name = name)

theorem ofName?_name (o : CommandOption) : ofName? o.name = some o := by
  cases o <;> decide

end CommandOption

/-- Why a command line is refused. -/
inductive CommandError where
  | unexpected (argument : String)
  | noValue (option : CommandOption)
  | repeated (option : CommandOption)
  | invalid (option : CommandOption) (value : String)
  deriving DecidableEq, Repr

namespace CommandError

def message : CommandError → String
  | unexpected argument => "unexpected argument '" ++ argument ++ "' found"
  | noValue option => "a value is required for '" ++ option.name ++ "' but none was supplied"
  | repeated option => "the argument '" ++ option.name ++ "' cannot be used multiple times"
  | invalid option value => "invalid value '" ++ value ++ "' for '" ++ option.name ++ "'"

end CommandError

/-- How clients reach the tools: over the standard streams, or over HTTP. -/
inductive Transport where
  | stdio
  | http
  deriving DecidableEq, Repr

structure CommandLine where
  values : List (CommandOption × String)
  transport : Transport
  deriving DecidableEq, Repr

namespace CommandLine

/-- An argument cut at its first equals sign. -/
def cut (argument : String) : String × Option String :=
  let cs := argument.toList
  let name := String.ofList (cs.takeWhile (· ≠ '='))
  match cs.dropWhile (· ≠ '=') with
  | [] => (name, none)
  | _ :: value => (name, some (String.ofList value))

/-- Adds the value of an option that has none yet. -/
def add (values : List (CommandOption × String)) (option : CommandOption) (value : String) :
    Except CommandError (List (CommandOption × String)) :=
  if (values.lookup option).isSome then .error (.repeated option)
  else .ok ((option, value) :: values)

/-- Reads the values of the options. -/
def readValues (values : List (CommandOption × String)) :
    List String → Except CommandError (List (CommandOption × String))
  | [] => .ok values
  | argument :: rest =>
    match CommandOption.ofName? (cut argument).1, (cut argument).2, rest with
    | none, _, _ => .error (.unexpected argument)
    | some option, some value, rest => do readValues (← add values option value) rest
    | some option, none, [] => .error (.noValue option)
    | some option, none, value :: rest => do readValues (← add values option value) rest

def readTransport : Option String → Except CommandError Transport
  | some "stdio" => .ok .stdio
  | some "http" => .ok .http
  | none => .ok .http
  | some value => .error (.invalid .transport value)

def read (arguments : List String) : Except CommandError CommandLine := do
  let values ← readValues [] arguments
  return ⟨values, ← readTransport (values.lookup .transport)⟩

variable (c : CommandLine)

/-- The address to serve HTTP at. -/
def address : String := (c.values.lookup .address).getD "127.0.0.1:27436"

/-- The path to serve HTTP at: it starts with a slash and does not end with one, unless it is the
slash alone. -/
def endpoint : String :=
  let path := Text.trim ((c.values.lookup .endpoint).getD "/mcp").toList
  let path := (path.reverse.dropWhile (· = '/')).reverse
  String.ofList (if path.head? = some '/' then path else '/' :: path)

/-- The directory for new files; without one they go below the directory for temporary files. -/
def outputDirectory (temporary : String) : String :=
  (c.values.lookup .outputDirectory).getD (temporary ++ "/trellis_output")

end CommandLine

end BoxDiagram
