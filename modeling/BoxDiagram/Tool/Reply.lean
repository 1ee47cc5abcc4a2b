import BoxDiagram.Json.Basic
import BoxDiagram.Store.Basic
import BoxDiagram.Text.Base64
import BoxDiagram.Tool.Call

/-!
# Replies: what tools answer
-/

namespace BoxDiagram

/-! ### Views as JSON -/

def TextMap.json {α : Type} (write : α → Json) (m : TextMap α) : Json :=
  .object (m.entries.map fun (name, value) => (name, write value))

def ObjectView.json (o : ObjectView) : Json :=
  .object [("id", .text o.id), ("label", .text o.label), ("shape", .text o.shape),
    ("parent", .ofText? o.parent), ("attributes", o.attributes.json .text)]

/-- The value of an attribute of an edge as JSON. -/
def EdgeValue.json : EdgeValue → Json
  | .text value => .text value
  | .flag value => .bool value

def EdgeView.json (e : EdgeView) : Json :=
  .object [("id", .text e.id), ("from", .text e.source), ("to", .text e.target),
    ("label", .ofText? e.label), ("attributes", e.attributes.json EdgeValue.json)]

def GraphView.json (v : GraphView) : Json :=
  .object [("objects", .list (v.objects.map (·.json))), ("edges", .list (v.edges.map (·.json)))]

/-- The fields of the report of an edit. -/
def EditReport.fields (r : EditReport) : List (String × Json) :=
  [("success", .bool true), ("requested_key", .text r.requestedKey), ("new_key", .text r.newKey),
    ("key_adjusted", .bool r.isAdjusted), ("id_deltas", r.deltas.json .text),
    ("graph", r.view.json)]

/-- A picture for a client: markup as it is, other formats as a link that holds the data. -/
structure PictureReply where
  format : PictureFormat
  data : String
  deriving DecidableEq, Repr

namespace PictureReply

/-- The bytes of a picture in a format. -/
def ofBytes (format : PictureFormat) (bytes : ByteArray) : Except ToolError PictureReply :=
  if format.isBinary then
    .ok ⟨format, "data:" ++ format.mediaType ++ ";base64," ++ Text.Base64.encode bytes⟩
  else ((Text.Utf8.decode bytes).mapError .notText).map (⟨format, ·⟩)

def json (p : PictureReply) : Json :=
  .object [("format", .text p.format.extension), ("mime_type", .text p.format.mediaType),
    ("data", .text p.data)]

end PictureReply

inductive Reply where
  | created (diagram : String) (view : GraphView)
  | listed (diagrams : List (Summary × Option Nat))
  | serialized (diagram content : String)
  | exported (diagram : String) (picture : PictureReply)
  | saved (diagram path : String) (format : PictureFormat)
  | rendered (picture : PictureReply)
  | renderedToFile (path : String) (format : PictureFormat) (size : Nat)
  | edited (report : EditReport)
  | object (view : ObjectView)
  | edge (view : EdgeView)
  | children (parent : String) (ids : List String)
  deriving DecidableEq, Repr

namespace Reply

/-- A diagram in a list as JSON, with the time of its last edit. -/
def summary (s : Summary) (modified : Option Nat) : Json :=
  .object [("diagram_id", .text s.id), ("objects", .ofNat s.objects), ("edges", .ofNat s.edges),
    ("has_session", .bool s.isEdited),
    ("last_modified_ms", (modified.map Json.ofNat).getD .null),
    ("history_len", .ofNat s.edits)]

/-- The fields of an answer. -/
def fields : Reply → List (String × Json)
  | created diagram view => [("diagram_id", .text diagram), ("graph", view.json)]
  | listed diagrams =>
    [("diagrams", .list (diagrams.map fun (s, modified) => summary s modified))]
  | serialized diagram content => [("diagram_id", .text diagram), ("content", .text content)]
  | exported diagram picture => [("diagram_id", .text diagram), ("output", picture.json)]
  | saved diagram path format =>
    [("diagram_id", .text diagram), ("path", .text path), ("format", .text format.extension)]
  | rendered picture =>
    [("format", .text picture.format.extension), ("mime_type", .text picture.format.mediaType),
      ("data", .text picture.data)]
  | renderedToFile path format size =>
    [("path", .text path), ("format", .text format.extension), ("bytes", .ofNat size)]
  | edited report => report.fields
  | object view => [("object", view.json)]
  | edge view => [("edge", view.json)]
  | children parent ids => [("parent_id", .text parent), ("children", .ofTexts ids)]

end Reply

end BoxDiagram
