import BoxDiagram.Edit.Request
import BoxDiagram.Graph.Compile
import BoxDiagram.Picture.Renderer
import BoxDiagram.Picture.Svg

/-!
# Backends: what a store works with

A store leaves its work to a compiler, a formatter, an editor and a renderer. A call to one of them
returns, or it crashes, with a message or without one; a crash inside the editor counts as a fault
of the editor.
-/

namespace BoxDiagram

/-- How a call ends. -/
inductive Outcome (α : Type) where
  | returned (value : α)
  | crashed (message : Option String)
  deriving Repr

namespace Outcome

variable {α : Type}

/-- The value that a call returned, or the message of its crash. -/
def contain : Outcome α → Except String α
  | returned value => .ok value
  | crashed message => .error (message.getD "panic with non-string payload")

end Outcome

/-- Why an editor does not do its work: it refuses, or it breaks down. -/
inductive EditFailure where
  | refused (reason : String)
  | fault (message : String)
  deriving DecidableEq, Repr

namespace EditFailure

/-- How the editor at hand reports a rejection. -/
def ofRejection (e : Rejection) : EditFailure :=
  if e.isFault then fault e.message else refused e.message

def message : EditFailure → String
  | refused reason => reason
  | fault message => "engine fault: " ++ message

end EditFailure

structure Editor where
  perform : Graph → List String → String → Action → Outcome (Except EditFailure (Graph × String))
  deleteDeltas : Graph → List String → String → Outcome (Except EditFailure Deltas)
  renameDeltas : Graph → List String → String → String → Outcome (Except EditFailure Deltas)
  readObject : Graph → List String → String → Outcome (Except EditFailure (Option ObjectView))
  readEdge : Graph → List String → String → Outcome (Except EditFailure (Option EdgeView))
  readChildren : Graph → List String → String → Outcome (Except EditFailure (Option (List String)))

namespace Editor

variable {α : Type}

/-- The result of a call to an editor; a crash is a fault. -/
def guarded : Outcome (Except EditFailure α) → Except EditFailure α
  | .returned result => result
  | .crashed message => .error (.fault (message.getD "panic with non-string payload"))

/-- A result of the editor at hand. -/
def settled (r : Except Rejection α) : Outcome (Except EditFailure α) :=
  .returned (r.mapError .ofRejection)

/-- The editor at hand. -/
def standard : Editor where
  perform g board key action := settled (g.perform board key action)
  deleteDeltas g board key := settled do
    Graph.checkBoard board
    g.deleteDeltas key
  renameDeltas g board key name := settled do
    Graph.checkBoard board
    g.renameDeltas key name
  readObject g board id := settled (g.readObject board id)
  readEdge g board id := settled (g.readEdge board id)
  readChildren g board parent := settled (g.readChildren board parent)

end Editor

/-- The parts that do the work of a store. -/
structure Backend where
  compile : String → Outcome (Except String Graph)
  format : Graph → Outcome (Option String)
  editor : Editor
  render : String → PictureFormat → Int → Outcome (Except RenderError ByteArray)

namespace Backend

/-- The backend at hand, with a writer for its pictures. -/
def writing (w : Writer) : Backend where
  compile text := .returned ((BoxDiagram.compile text).mapError (·.message))
  format g := .returned g.format
  editor := .standard
  render text format theme := .returned (renderPicture w Converter.preferred text format theme)

/-- The backend at hand. -/
def standard : Backend := writing .svg

end Backend

end BoxDiagram
