import BoxDiagram.Patch
import BoxDiagram.Store.Backend
import BoxDiagram.Store.Error

/-!
# Stores: named diagrams and their edits

A store keeps, for each diagram, its text, its graph and, from its first edit on, a session with the
requests that were carried out. A diagram with a session is written anew from its graph; one without
keeps the text as it was loaded.

An edit is carried out by the editor. Where the editor breaks down at deleting a connection, the
connection is removed from the canonical text instead, and the text is compiled again; a new session
then begins with that request. A call writes to the store step by step, and what it has written
stays, also if it fails later on; so all that can fail comes before the first write.
-/

namespace BoxDiagram

/-- The editing of one diagram: the requests that were carried out, in order. -/
structure Session where
  history : List Request
  deriving DecidableEq, Repr

/-- What a store keeps of a diagram. -/
structure Record where
  text : String
  graph : Graph
  session : Option Session
  deriving DecidableEq, Repr

namespace Record

/-- A diagram as it is loaded. -/
def loaded (text : String) (g : Graph) : Record := ⟨text, g, none⟩

def isEdited (r : Record) : Bool := r.session.isSome

/-- The requests of the session; none without a session. -/
def history (r : Record) : List Request := (r.session.map (·.history)).getD []

/-- Puts a request at the end of the session, which begins with it if there is none. -/
def remember (r : Record) (request : Request) : Record :=
  { r with session := some ⟨r.history ++ [request]⟩ }

end Record

structure Store where
  records : TextMap Record
  deriving DecidableEq, Repr

/-- What an edit reports. -/
structure EditReport where
  requestedKey : String
  newKey : String
  deltas : Deltas
  view : GraphView
  deriving DecidableEq, Repr

namespace EditReport

/-- Has the element another key than the one that was asked for? -/
def isAdjusted (r : EditReport) : Bool := r.newKey ≠ r.requestedKey

end EditReport

/-- A diagram in a list. -/
structure Summary where
  id : String
  objects : Nat
  edges : Nat
  isEdited : Bool
  edits : Nat
  deriving DecidableEq, Repr

/-- An edit that was carried out on a graph; `rebuilt` if the graph was compiled from a patched
text. -/
structure Applied where
  graph : Graph
  newKey : String
  deltas : Deltas
  rebuilt : Bool
  deriving DecidableEq, Repr

namespace Record

variable (b : Backend)

/-! ### The text of a diagram -/

/-- The text that the formatter writes for a graph, or else the given one. -/
def formatOr (g : Graph) (text : String) : String :=
  match (b.format g).contain with
  | .ok (some formatted) => formatted
  | _ => text

def currentText (r : Record) : String :=
  if r.isEdited then formatOr b r.graph r.text else r.text

/-! ### Edits -/

/-- A failure of the editor at an action. -/
def failed (action : String) (e : EditFailure) : StoreError := .rejected action e.message

/-- Removes a connection from the canonical text of a graph and compiles what is left. -/
def deleteTextually (g : Graph) (key : String) : Except StoreError Graph := do
  let k ← (Key.parseEdge key).mapError fun e => .rejected "delete" e.message
  match Patch.stripKey (Statement.print g.canonical) k with
  | none =>
    .error (.rejected "delete"
      ("connection '" ++ Text.trimmed key ++ "' not found in diagram text"))
  | some patched =>
    match (b.compile patched).contain with
    | .ok (.ok h) => .ok h
    | .ok (.error reason) => .error (.patchNotCompiled reason patched)
    | .error message => .error (failed "delete" (.fault message))

/-- Deletes an element. Deltas that cannot be had are reported as none. -/
def applyDelete (g : Graph) (board : List String) (key : String) : Except StoreError Applied :=
  let deltas := (Editor.guarded (b.editor.deleteDeltas g board key)).toOption.getD ∅
  match Editor.guarded (b.editor.perform g board key .delete) with
  | .ok (h, _) => .ok ⟨h, key, deltas, false⟩
  | .error (.fault message) =>
    if Arrow.occursIn key then do
      let h ← deleteTextually b g key
      return ⟨h, key, Graph.removedIds g h, true⟩
    else .error (failed "delete" (.fault message))
  | .error e => .error (failed "delete" e)

/-- Carries out an action on a graph. The deltas of a renaming are asked for first, since they
describe the graph before it. -/
def apply (g : Graph) (board : List String) (key : String) (action : Action) :
    Except StoreError Applied :=
  match action with
  | .delete => applyDelete b g board key
  | .rename name => do
    let deltas ← (Editor.guarded (b.editor.renameDeltas g board key name)).mapError
      (failed action.name)
    let (h, newKey) ← (Editor.guarded (b.editor.perform g board key action)).mapError
      (failed action.name)
    return ⟨h, newKey, deltas, false⟩
  | _ => do
    let (h, newKey) ← (Editor.guarded (b.editor.perform g board key action)).mapError
      (failed action.name)
    return ⟨h, newKey, ∅, false⟩

end Record

namespace Store

/-- The store without diagrams. -/
def empty : Store := ⟨∅⟩

instance : EmptyCollection Store := ⟨empty⟩

instance : Inhabited Store := ⟨empty⟩

variable (s : Store) (b : Backend) (isCancelled : Bool)

/-! ### Finding diagrams -/

/-- The record of a diagram; blanks around the id do not count. -/
def record? (id : String) : Option Record := s.records.get? (Text.trimmed id)

/-- Is there a diagram with the id? -/
def contains (id : String) : Bool := (s.record? id).isSome

/-- The session of a diagram, if it was edited. -/
def session? (id : String) : Option Session := (s.record? id).bind (·.session)

def list : List Summary :=
  s.records.entries.map fun (id, r) =>
    ⟨id, r.graph.objects.length, r.graph.edges.length, r.isEdited, r.history.length⟩

def parseId (id : String) : Except StoreError DiagramId :=
  (DiagramId.parse id).mapError fun e => .incomplete (.diagram e)

/-- The diagram that a complete request is for. -/
def validate (request : Request) : Except StoreError DiagramId :=
  request.validate.mapError .incomplete

/-- Refuses to go on after a cancellation. -/
def checkCancelled : Except StoreError Unit := if isCancelled then .error .cancelled else .ok ()

/-- The record of a diagram that must be there, for a call that must not be cancelled. -/
def fetch (id : DiagramId) : Except StoreError Record := do
  match s.records.get? id.text with
  | none => .error (.notFound "diagram" id.text)
  | some r =>
    checkCancelled isCancelled
    return r

/-! ### Calls that change the store -/

/-- A call that may change a store: it answers or fails, and leaves a store behind in either
case. -/
abbrev Call (α : Type) := ExceptT StoreError (StateM Store) α

namespace Call

variable {α : Type}

/-- How a call to a store ends, and the store it leaves behind. -/
def run (c : Call α) (s : Store) : Except StoreError α × Store := StateT.run (ExceptT.run c) s

/-- The store and the answer after a call that succeeds. -/
def result (c : Call α) (s : Store) : Except StoreError (Store × α) :=
  match c.run s with
  | (.ok a, t) => .ok (t, a)
  | (.error e, _) => .error e

/-- Changes the record of a diagram, if it is there. -/
def update (id : DiagramId) (f : Record → Record) : Call Unit :=
  modify fun s =>
    match s.records.get? id.text with
    | some r => ⟨s.records.insert id.text (f r)⟩
    | none => s

/-- Compiles a text and keeps it under an id, in the place of what was there. -/
def load (id text : String) : Call GraphView := do
  let id ← parseId id
  checkCancelled isCancelled
  match (b.compile text).contain with
  | .ok (.ok g) =>
    modify fun s => ⟨s.records.insert id.text (.loaded text g)⟩
    return g.view
  | .ok (.error reason) => throw (.notCompiled reason)
  | .error message => throw (Record.failed "load" (.fault message))

/-- Ends the session of a diagram, if its graph was compiled from a patched text. -/
def restart (id : DiagramId) (rebuilt : Bool) : Call Unit :=
  if rebuilt then update id fun r => { r with session := none } else pure ()

/-- Writes the text that the formatter writes for a graph, if it writes one. -/
def writeText (id : DiagramId) (g : Graph) : Call Unit :=
  match (b.format g).contain with
  | .ok (some formatted) => update id fun r => { r with text := formatted }
  | _ => pure ()

/-- Writes an edited graph with its text, and the request. -/
def commit (id : DiagramId) (request : Request) (g : Graph) : Call Unit := do
  writeText b id g
  update id fun r => { r with graph := g }
  update id (·.remember request)

/-- Carries out a request. -/
def execute (request : Request) : Call EditReport := do
  let id ← validate request
  let r ← (← get).fetch isCancelled id
  let a ← Record.apply b r.graph request.board request.key request.action
  restart id a.rebuilt
  commit b id request a.graph
  return ⟨request.key, a.newKey, a.deltas, a.graph.view⟩

end Call

def load (id text : String) : Except StoreError (Store × GraphView) :=
  (Call.load b isCancelled id text).result s

def execute (request : Request) : Except StoreError (Store × EditReport) :=
  (Call.execute b isCancelled request).result s

/-! ### Calls that read the store -/

def serialize (id : String) : Except StoreError String := do
  let r ← s.fetch isCancelled (← parseId id)
  return r.currentText b

/-- The view of the graph of a diagram. -/
def view (id : String) : Except StoreError GraphView := do
  let r ← s.fetch isCancelled (← parseId id)
  return r.graph.view

/-- Answers with what the editor reads, which must be there. -/
def found {α : Type} (what id : String) (r : Outcome (Except EditFailure (Option α))) :
    Except StoreError α := do
  match ← (Editor.guarded r).mapError (Record.failed "read") with
  | some value => .ok value
  | none => .error (.notFound what id)

def object (id : String) (board : List String) (objectId : String) :
    Except StoreError ObjectView := do
  let r ← s.fetch isCancelled (← parseId id)
  found "object" objectId (b.editor.readObject r.graph board objectId)

def edge (id : String) (board : List String) (edgeId : String) : Except StoreError EdgeView := do
  let r ← s.fetch isCancelled (← parseId id)
  found "edge" edgeId (b.editor.readEdge r.graph board edgeId)

/-- The ids right below a parent, or at the root if the parent is blank. -/
def children (id : String) (board : List String) (parent : String) :
    Except StoreError (List String) := do
  let r ← s.fetch isCancelled (← parseId id)
  found "parent" parent (b.editor.readChildren r.graph board parent)

/-- The picture of a text that need not be in the store. -/
def render (text : String) (format : PictureFormat) (theme : Int) :
    Except StoreError ByteArray := do
  if Request.isMissing text then .error .missingText
  else
    checkCancelled isCancelled
    match (b.render text format theme).contain with
    | .ok result => result.mapError .notRendered
    | .error message => .error (Record.failed "render" (.fault message))

def exportPicture (id : String) (format : PictureFormat) (theme : Int) :
    Except StoreError ByteArray := do
  render b isCancelled (← s.serialize b isCancelled id) format theme

end Store

end BoxDiagram
