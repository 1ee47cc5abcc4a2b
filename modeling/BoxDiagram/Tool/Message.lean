import BoxDiagram.Json.Reader
import BoxDiagram.Tool.Server

/-!
# Messages: a server and its client

Client and server send each other JSON objects. A request carries an id, which its answer repeats;
a message without an id is a notice and gets no answer. The methods that a server knows greet it,
ask whether it is there, ask for its tools, and call one of them.
-/

namespace BoxDiagram

/-! ### Descriptions of tools -/

namespace ParameterType

/-- The description of the arguments that a type takes. -/
def schema (t : ParameterType) : Json :=
  match t with
  | text => .object [("type", .text t.schemaName)]
  | texts => .object [("type", .text t.schemaName),
      ("items", .object [("type", .text text.schemaName)])]
  | optionalText | optionalInteger | optionalFlag =>
    .object [("type", .ofTexts [t.schemaName, "null"])]

end ParameterType

namespace Tool

/-- The description of a tool for clients. -/
def json (t : Tool) : Json :=
  let required := (t.parameters.filter (·.type.isRequired)).map (·.name)
  .object [("name", .text t.name), ("description", .text t.description),
    ("inputSchema", .object [("type", .text "object"),
      ("properties", .object (t.parameters.map fun p => (p.name, p.type.schema))),
      ("required", .ofTexts required)])]

end Tool

/-! ### Messages -/

structure Message where
  id : Option Json
  method : String
  params : Json
  deriving Repr

namespace Message

def ofJson? (j : Json) : Option Message := do
  let method ← (j.get? "method").bind Json.text?
  return ⟨j.get? "id", method, (j.get? "params").getD (.object [])⟩

end Message

/-- Why a request is refused. -/
structure Refusal where
  code : Int
  message : String
  data : Option Json
  deriving Repr

namespace Refusal

/-- The refusal of a text that is no message. -/
def noMessage : Refusal := ⟨-32700, "parse error", none⟩

/-- The refusal of a method that no server knows. -/
def unknownMethod (name : String) : Refusal := ⟨-32601, name, none⟩

/-- The refusal of a call that failed. -/
def ofError (e : ToolError) : Refusal := ⟨e.kind.code, e.message, e.data?⟩

/-- The refusal as JSON. -/
def json (r : Refusal) : Json :=
  .object ([("code", .integer r.code), ("message", .text r.message)] ++
    (r.data.map ("data", ·)).toList)

end Refusal

/-! ### Answers -/

/-- The answer to the request with an id. -/
def answerJson (id : Json) (answer : Except Refusal Json) : Json :=
  .object ([("jsonrpc", .text "2.0"), ("id", id)] ++
    match answer with
    | .ok result => [("result", result)]
    | .error refusal => [("error", refusal.json)])

namespace Reply

/-- The answer of a tool as JSON: its fields, and the same once more as a text. -/
def json (r : Reply) : Json :=
  let fields := Json.object r.fields
  .object [("content", .list [.object [("type", .text "text"), ("text", .text fields.render)]]),
    ("structuredContent", fields), ("isError", .bool false)]

end Reply

namespace Server

/-- The version of the messages for clients that name none. -/
def messageVersion : String := "2025-06-18"

/-- What a server says about itself. -/
def greeting (params : Json) : Json :=
  let version := ((params.get? "protocolVersion").bind Json.text?).getD messageVersion
  .object [("protocolVersion", .text version), ("capabilities", .object [("tools", .object [])]),
    ("serverInfo", .object [("name", .text "trellis"), ("version", .text "0.1.0")]),
    ("instructions", .text instructions)]

variable {m : Type → Type} [Monad m] (around : Surroundings m) (b : Backend)

/-- Answers a message. -/
def answer (s : Server) (message : Message) : m (Except Refusal Json × Server) := do
  match message.method with
  | "initialize" => return (.ok (greeting message.params), s)
  | "ping" => return (.ok (.object []), s)
  | "tools/list" => return (.ok (.object [("tools", .list (Tool.all.map Tool.json))]), s)
  | "tools/call" =>
    let name := ((message.params.get? "name").bind Json.text?).getD ""
    let arguments := (message.params.get? "arguments").getD (.object [])
    let (reply, t) ← s.call around b name arguments
    return ((reply.map Reply.json).mapError .ofError, t)
  | name => return (.error (.unknownMethod name), s)

/-- Answers a line of text with a line, if the line is not blank and no notice. -/
def answerLine (s : Server) (line : String) : m (Option String × Server) := do
  if Text.trimmed line = "" then return (none, s)
  match (Json.read? line).bind Message.ofJson? with
  | none => return (some (answerJson .null (.error .noMessage)).render, s)
  | some message =>
    match message.id with
    | none => return (none, s)
    | some id =>
      let (answer, t) ← s.answer around b message
      return (some (answerJson id answer).render, t)

end Server

end BoxDiagram
