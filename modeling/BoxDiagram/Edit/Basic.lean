import BoxDiagram.Edit.Rejection
import BoxDiagram.Graph.Basic

/-!
# Edits: creating, setting and deleting

An edit finds its element by a key. Creating an object takes the first free id, with a number after
the name if need be. Setting writes one slot: an attribute of the board, of an object or of an edge;
without an attribute path the slot is the label, and setting the label of a missing object declares
it. Deleting an object deletes what lies below it and the edges that touch it.
-/

namespace BoxDiagram

/-- The place of one attribute. -/
inductive Slot where
  | board (name : String)
  | object (id name : String)
  | edge (position : Nat) (name : String)
  deriving DecidableEq, Repr

namespace Graph

variable (g : Graph)

/-- The value in a slot. -/
def slot? : Slot → Option String
  | .board name => g.board.get? name
  | .object id name => (g.find? id).bind (·.attributes.get? name)
  | .edge i name => g.edges[i]?.bind (·.attributes.get? name)

/-- The graph with a slot written, or emptied if there is no value. -/
def assign (value : Option String) : Slot → Graph
  | .board name => g.assignBoard name value
  | .object id name => g.assignObject id name value
  | .edge i name => g.assignEdge i name value

/-- Writes a slot of an element that must be there. -/
def write (value : Option String) (slot : Slot) : Except Rejection Graph :=
  match slot with
  | .board _ => .ok (g.assign value slot)
  | .object id _ => if g.contains id then .ok (g.assign value slot) else .error (.objectVanished id)
  | .edge i _ => if i < g.edges.length then .ok (g.assign value slot) else .error (.edgeVanished i)

/-! ### Finding elements -/

/-- The id of an object that is there. -/
def existing (path : List String) : Except Rejection String :=
  let id := Dotted.join path
  if g.contains id then .ok id else .error (.noObject id)

/-- The position of the edge that a key addresses. -/
def resolve (k : EdgeKey) : Except Rejection Nat :=
  match g.edgeAt? k with
  | some i => .ok i
  | none =>
    .error (.noConnection (indexedEdgeKey k.sourceId k.arrow k.targetId (k.index.getD 0)))

/-- Names with a number: `name 2`, `name 3` and so on. -/
def numbered (name : String) (n : Nat) : String := name ++ " " ++ toString (n + 2)

/-- The first free id for a name below a parent. Among one more candidate than there are objects one
is free. The numbers are not bounded; a counter of 31 bits gives the same ones up to `2 ^ 31 - 3`
objects, since no number above `g.objects.length + 2` is chosen. -/
def freeId (parent : Option String) (name : String) : String :=
  let candidate := Dotted.below parent name
  if g.contains candidate then
    (((List.range (g.objects.length + 1)).map fun n => Dotted.below parent (numbered name n)).find?
      (!g.contains ·)).getD candidate
  else candidate

end Graph

namespace Edit

def parseKey (key : String) : Except Rejection Key := (Key.parse key).mapError .invalidKey

/-- The name that an attribute path stands for. -/
def attributeName (path : List String) : Except Rejection String :=
  (Attribute.nameOf path).mapError .invalidAttribute

/-- Refuses a value that the attribute cannot have; erasing is always possible. -/
def checkValue (name : String) : Option String → Except Rejection Unit
  | some value => (Attribute.checkValue name value).mapError .invalidAttribute
  | none => .ok ()

/-- Refuses an attribute that a connection cannot carry. -/
def checkConnectionName (name : String) : Except Rejection Unit :=
  (Attribute.checkConnectionName name).mapError .invalidAttribute

/-- A tag without the blanks around it; a blank one does not count. -/
def effectiveTag (tag : Option String) : Option String :=
  (tag.map Text.trimmed).filter (· ≠ "")

/-- Puts a tag in front of the attribute path, unless it is there already. Without an attribute path
the last name of the object path becomes one. -/
def applyTag (tag : Option String) (path attr : List String) : List String × List String :=
  match effectiveTag tag with
  | none => (path, attr)
  | some t =>
    if attr.head? = some t then (path, attr)
    else if attr = [] then (path.dropLast, t :: path.getLast?.toList)
    else (path, t :: attr)

/-- The name of the attribute of a connection that a tag and an attribute path address. -/
def connectionAttribute (tag : Option String) (attr : List String) : Except Rejection String :=
  match effectiveTag tag with
  | some t => attributeName (if attr.head? = some t then attr else t :: attr)
  | none => if attr = [] then .ok "label" else attributeName attr

end Edit

namespace Graph

open Edit

variable (g : Graph)

/-! ### Creating -/

/-- Creates an object or a connection; answers with the key of what was created. -/
def create (key : String) : Except Rejection (Graph × String) := do
  match ← parseKey key with
  | .object path attr =>
    if attr ≠ [] ∨ path = [] then .error (.attributeCreated key)
    else
      let parent := if path.dropLast = [] then none else some (Dotted.join path.dropLast)
      let id := g.freeId parent (path.getLast?.getD "")
      return (g.ensure id, id)
  | .edge k =>
    if k.attr ≠ [] then .error (.attributeCreated key)
    else
      let h := (g.ensure k.sourceId).ensure k.targetId
      let n := (h.edgesBetween k.sourceId k.targetId).length
      return (h.addEdge (.blank k.sourceId k.arrow k.targetId),
        indexedEdgeKey k.sourceId k.arrow k.targetId n)

/-! ### Setting -/

/-- Sets the label or an attribute of an object, or an attribute of the board. -/
def setObject (path attr : List String) (value : Option String) : Except Rejection Graph := do
  if attr = [] then
    let id := Dotted.join path
    (g.ensure id).write value (.object id "label")
  else
    let name ← attributeName attr
    checkValue name value
    if path = [] then g.write value (.board name)
    else g.write value (.object (← g.existing path) name)

/-- Sets an attribute of a connection. -/
def setEdge (k : EdgeKey) (tag value : Option String) : Except Rejection Graph := do
  let i ← g.resolve k
  let name ← connectionAttribute tag k.attr
  checkConnectionName name
  checkValue name value
  g.write value (.edge i name)

/-- Sets what a key addresses, in the name space of a tag if there is one. -/
def set (key : String) (tag value : Option String) : Except Rejection Graph := do
  match ← parseKey key with
  | .object path attr =>
    let (path, attr) := applyTag tag path attr
    g.setObject path attr value
  | .edge k => g.setEdge k tag value

/-! ### Deleting -/

/-- The slot of the attribute that a key with an attribute path addresses. -/
def attributeSlot : Key → Except Rejection Slot
  | .object path attr => do
    let name ← attributeName attr
    if path = [] then return .board name
    else return .object (← g.existing path) name
  | .edge k => do
    let i ← g.resolve k
    return .edge i (← attributeName k.attr)

/-- Deletes what a key addresses. Emptying a slot of an edge that is not there does nothing. -/
def delete (key : String) : Except Rejection Graph := do
  match ← parseKey key with
  | .object path [] => return g.removeObjects (g.subtree (← g.existing path))
  | .edge ⟨source, target, arrow, index, []⟩ =>
    return g.removeEdge (← g.resolve ⟨source, target, arrow, index, []⟩)
  | .object path attr => g.write none (← g.attributeSlot (.object path attr))
  | .edge k => return g.assign none (← g.attributeSlot (.edge k))

end Graph

end BoxDiagram
