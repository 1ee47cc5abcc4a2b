import BoxDiagram.Json.Basic

/-!
# Tools: what clients can call

Each tool has a name and parameters of given types. Arguments come as a JSON object; those that no
parameter asks for are ignored.
-/

namespace BoxDiagram

/-- The types of parameters. A text must be given; the others may be left out, and but for lists
they may be null as well. -/
inductive ParameterType where
  | text
  | optionalText
  | optionalInteger
  | optionalFlag
  | texts
  deriving DecidableEq, Repr

namespace ParameterType

/-- Must the argument be given? -/
def isRequired : ParameterType → Bool
  | text => true
  | optionalText | optionalInteger | optionalFlag | texts => false

/-- Does the type take the argument? Integers are those of 64 bits with a sign. -/
def accepts : ParameterType → Option Json → Bool
  | text, some (.text _) => true
  | text, _ => false
  | _, none => true
  | texts, some (.list items) => items.all fun item => item.text?.isSome
  | texts, some _ => false
  | _, some .null => true
  | optionalText, some (.text _) => true
  | optionalInteger, some (.integer n) => -0x8000000000000000 ≤ n && n < 0x8000000000000000
  | optionalFlag, some (.bool _) => true
  | _, _ => false

/-- The name of the type of the values. -/
def schemaName : ParameterType → String
  | text | optionalText => "string"
  | optionalInteger => "integer"
  | optionalFlag => "boolean"
  | texts => "array"

end ParameterType

structure Parameter where
  name : String
  type : ParameterType
  deriving DecidableEq, Repr

inductive Tool where
  | diagramCreate
  | diagramList
  | diagramSerialize
  | diagramExport
  | diagramSave
  | diagramRender
  | diagramRenderToFile
  | elementCreate
  | elementSet
  | elementDelete
  | elementMove
  | elementRename
  | objectRead
  | edgeRead
  | objectChildren
  deriving DecidableEq, Repr

namespace Tool

/-- The tools in the order in which they are described. -/
def all : List Tool :=
  [diagramCreate, diagramList, diagramSerialize, diagramExport, diagramSave, diagramRender,
    diagramRenderToFile, elementCreate, elementSet, elementDelete, elementMove, elementRename,
    objectRead, edgeRead, objectChildren]

def name : Tool → String
  | diagramCreate => "diagram.create"
  | diagramList => "diagram.list"
  | diagramSerialize => "diagram.serialize"
  | diagramExport => "diagram.export"
  | diagramSave => "diagram.save"
  | diagramRender => "diagram.render"
  | diagramRenderToFile => "diagram.render_to_file"
  | elementCreate => "element.create"
  | elementSet => "element.set"
  | elementDelete => "element.delete"
  | elementMove => "element.move"
  | elementRename => "element.rename"
  | objectRead => "object.read"
  | edgeRead => "edge.read"
  | objectChildren => "object.children"

/-- The tool with a name. -/
def ofName? (name : String) : Option Tool := all.find? (·.name = name)

/-- What a tool is for. -/
def description : Tool → String
  | diagramCreate => "Load diagram text under an id, in the place of what was there."
  | diagramList => "List the loaded diagrams."
  | diagramSerialize => "The text of a diagram with every edit."
  | diagramExport => "Render a loaded diagram."
  | diagramSave => "Render a loaded diagram to a file."
  | diagramRender => "Render diagram text that is not loaded."
  | diagramRenderToFile => "Render diagram text that is not loaded to a file."
  | elementCreate => "Create an object (a.b) or a connection (a -> b)."
  | elementSet => "Set a label or an attribute; without a value the attribute is cleared."
  | elementDelete => "Delete an element with all that lies below it and touches it."
  | elementMove => "Move an object under a new parent, the root if that is empty."
  | elementRename => "Rename an object in place."
  | objectRead => "Read an object by its id."
  | edgeRead => "Read a connection by its id or key."
  | objectChildren => "List the ids right below an object, or at the root."

/-- Parameters of type text. -/
def texts (names : List String) : List Parameter := names.map (⟨·, .text⟩)

/-- The board of an element. -/
def board : Parameter := ⟨"board_path", .texts⟩

/-- The format and the theme of a picture. -/
def picture : List Parameter := [⟨"format", .optionalText⟩, ⟨"theme", .optionalInteger⟩]

def path : Parameter := ⟨"path", .optionalText⟩

def parameters : Tool → List Parameter
  | diagramCreate => texts ["diagram_id", "content"]
  | diagramList => []
  | diagramSerialize => texts ["diagram_id"]
  | diagramExport => texts ["diagram_id"] ++ picture
  | diagramSave => texts ["diagram_id"] ++ picture ++ [path]
  | diagramRender => texts ["content"] ++ picture
  | diagramRenderToFile => texts ["content"] ++ picture ++ [path]
  | elementCreate | elementDelete => texts ["diagram_id", "key"] ++ [board]
  | elementSet =>
    texts ["diagram_id", "key"] ++ [board, ⟨"tag", .optionalText⟩, ⟨"value", .optionalText⟩]
  | elementMove =>
    texts ["diagram_id", "key", "new_parent"] ++ [board, ⟨"include_descendants", .optionalFlag⟩]
  | elementRename => texts ["diagram_id", "key", "new_name"] ++ [board]
  | objectRead => texts ["diagram_id", "object_id"] ++ [board]
  | edgeRead => texts ["diagram_id", "edge_id"] ++ [board]
  | objectChildren => texts ["diagram_id"] ++ [board, ⟨"parent_id", .optionalText⟩]

/-- Do the arguments fit the parameters? -/
def accepts (t : Tool) (arguments : Json) : Bool :=
  t.parameters.all fun p => p.type.accepts (arguments.get? p.name)

theorem ofName?_name (t : Tool) : ofName? t.name = some t := by
  cases t <;> decide

end Tool

end BoxDiagram
