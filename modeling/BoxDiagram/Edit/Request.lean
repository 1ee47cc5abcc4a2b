import BoxDiagram.DiagramId
import BoxDiagram.Edit.Delta
import BoxDiagram.Graph.Canonical
import BoxDiagram.Graph.View

/-!
# Requests: edits of a diagram

A request names a diagram, a board, a key and an action. Only the root board can be edited or read.
After an edit the graph is to be printed from its canonical statements.
-/

namespace BoxDiagram

/-- What a request asks for. -/
inductive Action where
  | create
  | set (tag value : Option String)
  | delete
  | move (newKey : String) (withDescendants : Bool)
  | rename (newName : String)
  deriving DecidableEq, Repr

namespace Action

/-- The action in one word. -/
def name : Action → String
  | create => "create"
  | set _ _ => "set"
  | delete => "delete"
  | move _ _ => "move"
  | rename _ => "rename"

end Action

/-- A request for an edit. -/
structure Request where
  diagram : String
  board : List String
  key : String
  action : Action
  deriving DecidableEq, Repr

/-- What is missing in a request. -/
inductive RequestError where
  | diagram (error : DiagramIdError)
  | missingKey
  | missingNewKey
  | missingNewName
  deriving DecidableEq, Repr

namespace RequestError

def message : RequestError → String
  | diagram error => error.message
  | missingKey => "element key is required"
  | missingNewKey => "new key is required"
  | missingNewName => "new name is required"

end RequestError

namespace Request

def isMissing (s : String) : Bool := Text.trimmed s = ""

/-- The diagram that a request is for, if the request is complete. -/
def validate (r : Request) : Except RequestError DiagramId := do
  let id ← (DiagramId.parse r.diagram).mapError .diagram
  if isMissing r.key then .error .missingKey
  else match r.action with
    | .move newKey _ => if isMissing newKey then .error .missingNewKey else .ok id
    | .rename newName => if isMissing newName then .error .missingNewName else .ok id
    | _ => .ok id

end Request

namespace Graph

variable (g : Graph)

/-- Refuses every board but the root. -/
def checkBoard (board : List String) : Except Rejection Unit :=
  if board = [] then .ok () else .error (.noBoard board)

/-- The graph after an action, and the key under which its element is found. -/
def act (key : String) : Action → Except Rejection (Graph × String)
  | .create => g.create key
  | .set tag value => return (← g.set key tag value, key)
  | .delete => return (← g.delete key, key)
  | .move newKey withDescendants => return (← g.move key newKey withDescendants, newKey)
  | .rename newName => g.rename key newName

/-- Performs an action on a board and makes the statements of the graph canonical. -/
def perform (board : List String) (key : String) (action : Action) :
    Except Rejection (Graph × String) := do
  checkBoard board
  let (h, newKey) ← g.act key action
  return (h.refresh, newKey)

/-! ### Reading -/

/-- The object with an id. -/
def readObject (board : List String) (id : String) : Except Rejection (Option ObjectView) := do
  checkBoard board
  return (g.find? (Text.trimmed id)).map Object.view

/-- The position of the edge that a public id or else a key addresses. -/
def locateEdge? (id : String) : Option Nat :=
  match g.findEdge? id with
  | some i => some i
  | none =>
    match Key.parse id with
    | .ok (.edge k) => if k.attr = [] then g.edgeAt? k else none
    | _ => none

/-- The edge that a public id or a key addresses. -/
def readEdge (board : List String) (id : String) : Except Rejection (Option EdgeView) := do
  checkBoard board
  return (g.locateEdge? (Text.trimmed id)).bind g.edgeView?

/-- The ids right below a parent, or at the root if the parent is blank. -/
def readChildren (board : List String) (parent : String) :
    Except Rejection (Option (List String)) := do
  checkBoard board
  let parent := Text.trimmed parent
  if parent = "" then return some (g.children none)
  else if g.contains parent then return some (g.children (some parent))
  else return none

end Graph

end BoxDiagram
