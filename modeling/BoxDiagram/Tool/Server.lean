import BoxDiagram.Store.Save
import BoxDiagram.Tool.Reply

/-!
# Servers: tools over a store

A server holds a store, the time of the last edit of each diagram, and whether it was cancelled; a
server that was cancelled refuses what takes time. Files and the clock belong to its surroundings.
-/

namespace BoxDiagram

/-- What a server needs from outside: a place for files and a clock that counts milliseconds. -/
structure Surroundings (m : Type → Type) extends Output m where
  clock : m Nat

structure Server where
  store : Store
  times : TextMap Nat
  isCancelled : Bool

namespace Server

/-- A server that holds nothing. -/
def fresh : Server := ⟨∅, ∅, false⟩

/-- The server after its cancellation. -/
def cancel (s : Server) : Server := { s with isCancelled := true }

/-- The name and the purpose of the server, for its clients. -/
def instructions : String :=
  "Trellis diagram editing server (tools: " ++ ", ".intercalate (Tool.all.map Tool.name) ++ ")"

variable {m : Type → Type} [Monad m] (around : Surroundings m) (b : Backend)

/-- The diagrams with the times of their last edits. -/
def list (s : Server) : List (Summary × Option Nat) :=
  s.store.list.map fun d => (d, if d.isEdited then s.times.get? d.id else none)

/-- The reply to what a store answers. -/
def reply {α : Type} (answer : Except StoreError α) (write : α → Except ToolError Reply) :
    Except ToolError Reply :=
  (answer.mapError .store).bind write

def run (s : Server) (call : ToolCall) : m (Except ToolError Reply × Server) := do
  let off := s.isCancelled
  match call with
  | .create diagram content =>
    let (answer, store) := (Store.Call.load b off diagram content).run s.store
    return (reply answer fun view => .ok (.created (Text.trimmed diagram) view),
      { s with store := store })
  | .edit request =>
    match (Store.Call.execute b off request).run s.store with
    | (.ok report, store) =>
      let times := s.times.insert (Text.trimmed request.diagram) (← around.clock)
      return (.ok (.edited report), { s with store := store, times := times })
    | (.error e, store) => return (.error (.store e), { s with store := store })
  | .list => return (.ok (.listed s.list), s)
  | .serialize diagram =>
    return (reply (s.store.serialize b off diagram) fun text =>
      .ok (.serialized (Text.trimmed diagram) text), s)
  | .exportPicture diagram format theme =>
    return (reply (s.store.exportPicture b off diagram format theme) fun bytes =>
      (PictureReply.ofBytes format bytes).map (.exported (Text.trimmed diagram)), s)
  | .render content format theme =>
    return (reply (Store.render b off content format theme) fun bytes =>
      (PictureReply.ofBytes format bytes).map .rendered, s)
  | .save diagram format theme path =>
    return (reply (← s.store.save around.toOutput b off diagram format theme path) fun (path, _) =>
      .ok (.saved (Text.trimmed diagram) path format), s)
  | .renderToFile content format theme path =>
    return (reply (← Store.renderToFile around.toOutput b off content format theme path)
      fun (path, bytes) => .ok (.renderedToFile path format bytes.size), s)
  | .object diagram board id =>
    return (reply (s.store.object b off diagram board id) fun view => .ok (.object view), s)
  | .edge diagram board id =>
    return (reply (s.store.edge b off diagram board id) fun view => .ok (.edge view), s)
  | .children diagram board parent =>
    return (reply (s.store.children b off diagram board parent) fun ids =>
      .ok (.children parent ids), s)

/-- Carries out the call of the tool with a name. -/
def call (s : Server) (name : String) (arguments : Json) : m (Except ToolError Reply × Server) :=
  match ToolCall.read name arguments with
  | .ok c => s.run around b c
  | .error e => return (.error e, s)

end Server

end BoxDiagram
