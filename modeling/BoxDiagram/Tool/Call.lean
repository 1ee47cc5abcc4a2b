import BoxDiagram.Json.Basic
import BoxDiagram.Store.Error
import BoxDiagram.Text.Utf8
import BoxDiagram.Tool.Basic

/-!
# Calls: tools with their arguments
-/

namespace BoxDiagram

/-- Why a call of a tool fails. -/
inductive ToolError where
  | unknownTool
  | badArguments
  | badFormat (given : String) (error : RenderError)
  | store (error : StoreError)
  | notText (fault : Text.Utf8.Fault)
  deriving DecidableEq, Repr

/-- The kinds of failures that clients tell apart. -/
inductive FailureKind where
  | invalidArguments
  | nothingThere
  | internal
  deriving DecidableEq, Repr

namespace FailureKind

def code : FailureKind → Int
  | invalidArguments => -32602
  | nothingThere => -32002
  | internal => -32603

end FailureKind

namespace ToolError

def message : ToolError → String
  | unknownTool => "tool not found"
  | badArguments => "failed to deserialize parameters"
  | badFormat _ error => error.message
  | store error => error.message
  | notText fault => "renderer produced invalid UTF-8: " ++ fault.message

def kind : ToolError → FailureKind
  | unknownTool | badArguments | badFormat _ _ => .invalidArguments
  | store error =>
    match error.errorClass with
    | .validation | .compilation | .rejection => .invalidArguments
    | .notFound => .nothingThere
    | .rendering | .output | .cancellation => .internal
  | notText _ => .internal

/-- What a client gets besides the message: the format that was asked for, or the text that could
not be compiled. -/
def data? : ToolError → Option Json
  | badFormat given _ => some (.object [("format", .text given)])
  | store (.patchNotCompiled _ text) => some (.object [("text", .text text)])
  | _ => none

end ToolError

inductive ToolCall where
  | create (diagram content : String)
  | list
  | serialize (diagram : String)
  | exportPicture (diagram : String) (format : PictureFormat) (theme : Int)
  | save (diagram : String) (format : PictureFormat) (theme : Int) (path : Option String)
  | render (content : String) (format : PictureFormat) (theme : Int)
  | renderToFile (content : String) (format : PictureFormat) (theme : Int) (path : Option String)
  | edit (request : Request)
  | object (diagram : String) (board : List String) (id : String)
  | edge (diagram : String) (board : List String) (id : String)
  | children (diagram : String) (board : List String) (parent : String)
  deriving DecidableEq, Repr

namespace ToolCall

/-! ### Arguments -/

/-- A text, if it is given. -/
def text? (arguments : Json) (name : String) : Option String :=
  (arguments.get? name).bind Json.text?

/-- A text, empty if it is not given. -/
def text (arguments : Json) (name : String) : String := (text? arguments name).getD ""

/-- A list of texts, empty if it is not given. -/
def texts (arguments : Json) (name : String) : List String :=
  (((arguments.get? name).bind Json.list?).getD []).filterMap Json.text?

/-- An integer, zero if it is not given. -/
def integer (arguments : Json) (name : String) : Int :=
  match arguments.get? name with
  | some (.integer n) => n
  | _ => 0

/-- A flag, true if it is not given. -/
def flag (arguments : Json) (name : String) : Bool :=
  match arguments.get? name with
  | some (.bool value) => value
  | _ => true

/-- A path; a blank one is none. -/
def path? (arguments : Json) : Option String :=
  (text? arguments "path").filter (!Request.isMissing ·)

def format (arguments : Json) : Except ToolError PictureFormat :=
  let given := text arguments "format"
  (PictureFormat.parse given).mapError (.badFormat given)

/-- The key that moving an element under a new parent gives it: its last name below the parent. -/
def moveTarget (key newParent : String) : String :=
  let name := Dotted.leaf (Text.trimmed key)
  let parent := Text.trimmed newParent
  Dotted.below (if parent = "" then none else some parent) name

/-! ### Reading calls -/

/-- The call of a tool with arguments that fit its parameters. -/
def ofArguments (t : Tool) (arguments : Json) : Except ToolError ToolCall := do
  let get := text arguments
  let diagram := get "diagram_id"
  let board := texts arguments "board_path"
  let theme := integer arguments "theme"
  let edit (action : Action) : ToolCall := .edit ⟨diagram, board, get "key", action⟩
  match t with
  | .diagramCreate => return .create diagram (get "content")
  | .diagramList => return .list
  | .diagramSerialize => return .serialize diagram
  | .diagramExport => return .exportPicture diagram (← format arguments) theme
  | .diagramSave => return .save diagram (← format arguments) theme (path? arguments)
  | .diagramRender => return .render (get "content") (← format arguments) theme
  | .diagramRenderToFile =>
    return .renderToFile (get "content") (← format arguments) theme (path? arguments)
  | .elementCreate => return edit .create
  | .elementSet => return edit (.set (text? arguments "tag") (text? arguments "value"))
  | .elementDelete => return edit .delete
  | .elementMove =>
    return edit (.move (moveTarget (get "key") (get "new_parent"))
      (flag arguments "include_descendants"))
  | .elementRename => return edit (.rename (get "new_name"))
  | .objectRead => return .object diagram board (get "object_id")
  | .edgeRead => return .edge diagram board (get "edge_id")
  | .objectChildren => return .children diagram board (get "parent_id")

/-- Reads the call of the tool with a name. -/
def read (name : String) (arguments : Json) : Except ToolError ToolCall :=
  match Tool.ofName? name with
  | none => .error .unknownTool
  | some t => if t.accepts arguments then ofArguments t arguments else .error .badArguments

end ToolCall

end BoxDiagram
