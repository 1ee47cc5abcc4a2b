import BoxDiagram.CommandLine
import BoxDiagram.Store.Disk
import BoxDiagram.Tool.Message
import Std.Time.DateTime.Timestamp

/-!
# The tools as a program

A client writes one message a line to the standard input and reads the answers from the standard
output. All else is written to the standard error.
-/

namespace BoxDiagram

/-- The milliseconds since the start of 1970. -/
def milliseconds : IO Nat := do
  return (← Std.Time.Timestamp.now).toMillisecondsSinceUnixEpoch.val.toNat

/-- Writes a file by way of a temporary one beside it. -/
def replaceFile (temporary path : String) (bytes : ByteArray) : IO Unit := do
  IO.FS.writeBinFile temporary bytes
  try IO.FS.rename temporary path
  catch e =>
    IO.FS.removeFile temporary
    throw e

/-- Writes a file into a directory that is created where it is missing. -/
def writeFile (path : String) (bytes : ByteArray) : IO Bool := do
  let (directory, name) := Disk.cutName path
  try
    IO.FS.createDirAll (if directory = "" then "." else directory)
    let some name := name | return false
    let stamp := toString (← milliseconds)
    replaceFile (directory ++ ".trellis.tmp." ++ name ++ "." ++ stamp) path bytes
    return true
  catch _ => return false

/-- The files and the clock of the system. -/
def system (directory : String) : Surroundings IO where
  directory := directory ++ "/"
  stamp := do return toString ((← milliseconds) / 1000)
  write := writeFile
  clock := milliseconds

/-- Answers messages until the input ends. -/
partial def serve (around : Surroundings IO) (input output : IO.FS.Stream) (s : Server) :
    IO Unit := do
  let line ← input.getLine
  if line.isEmpty then return
  let (answer, t) ← s.answerLine around .standard line
  if let some text := answer then
    output.putStrLn text
    output.flush
  serve around input output t

/-- Serves the tools as the command line asks. -/
def runCommand (arguments : List String) : IO UInt32 := do
  match CommandLine.read arguments with
  | .error e =>
    IO.eprintln ("error: " ++ e.message)
    return 2
  | .ok c =>
    match c.transport with
    | .http =>
      IO.eprintln ("trellis: cannot serve http://" ++ c.address ++ c.endpoint ++
        "; use --transport stdio")
      return 1
    | .stdio =>
      let temporary := (← IO.getEnv "TMPDIR").getD "/tmp"
      serve (system (c.outputDirectory temporary)) (← IO.getStdin) (← IO.getStdout) .fresh
      return 0

end BoxDiagram

def main (arguments : List String) : IO UInt32 := BoxDiagram.runCommand arguments
