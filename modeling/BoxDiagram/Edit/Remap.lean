import BoxDiagram.Edit.Basic

/-!
# Edits: moving and renaming

Moving an object replaces ids. With its descendants the whole subtree goes along; without them its
children take its former place under their own names. The new ids must be distinct, and each must be
free or be vacated by the same move. Renaming moves a subtree to a free id below the same parent.
-/

namespace BoxDiagram

namespace Graph

open Edit

variable (g : Graph)

/-- The old ids of a subtree with the new ones, when its root moves from `old` to `new`. -/
def transplant (old new : String) : List (String × String) :=
  (g.subtree old).map fun id => (id, new ++ Dotted.remainder id old)

/-- Refuses a mapping of ids that would make two objects share one. The mapping is looked through in
the order of its old ids. -/
def checkMapping (mapping : TextMap String) :
    (seen : List String) → List (String × String) → Except Rejection Unit
  | _, [] => .ok ()
  | seen, (old, new) :: rest =>
    if seen.contains new then .error (.producedTwice new)
    else if old ≠ new ∧ g.contains new ∧ !mapping.contains new then .error (.alreadyExists new)
    else checkMapping mapping (new :: seen) rest

/-- The graph with the ids of a mapping replaced. -/
def applyMapping (mapping : TextMap String) : Graph :=
  g.remap fun id => (mapping.get? id).getD id

end Graph

namespace Edit

/-- The id of the object that a key names. -/
def objectId (key : String) : Except Rejection String := do
  match ← parseKey key with
  | .object path attr =>
    if attr = [] ∧ path ≠ [] then .ok (Dotted.join path) else .error (.notAnObject key)
  | .edge _ => .error (.connectionForObject key)

/-- Reads a new name, which must be a single name and no keyword. -/
def newName (name : String) : Except Rejection String := do
  match ← (Key.readPath name.toList).mapError .invalidKey with
  | [single] =>
    if Attribute.isReserved single then .error (.reservedName single) else .ok single
  | _ => .error (.severalSegments (Text.trimmed name))

end Edit

namespace Graph

open Edit

variable (g : Graph)

/-- The mapping that moves one object and leaves its children in its former place. -/
def hoist (old new : String) : List (String × String) :=
  (old, new) :: (g.children (some old)).flatMap fun child =>
    g.transplant child (Dotted.below (Dotted.parent? old) (Dotted.leaf child))

/-- The graph with the ancestors of an id. -/
def ensureParent (id : String) : Graph :=
  match Dotted.parent? id with
  | some parent => g.ensure parent
  | none => g

/-- Moves an object to the id that another key names. -/
def move (key newKey : String) (withDescendants : Bool) : Except Rejection Graph := do
  let old ← objectId key
  if !g.contains old then .error (.noObject old)
  else
    let new ← objectId newKey
    if new = old then return g
    else if Dotted.isWithin new old then .error (.ownSubtree old new)
    else
      let moves := if withDescendants then g.transplant old new else g.hoist old new
      let mapping := TextMap.ofList moves
      g.checkMapping mapping [] mapping.entries
      return (g.applyMapping mapping).ensureParent new

/-- The present id of the object to be renamed, and its new one. -/
def renameTarget (key name : String) : Except Rejection (String × String) := do
  match ← parseKey key with
  | .edge _ => .error (.connectionRenamed key)
  | .object _ _ =>
    let old ← objectId key
    if !g.contains old then .error (.noObject old)
    else
      let single ← newName name
      let parent := Dotted.parent? old
      if Dotted.below parent single = old then return (old, old)
      else return (old, g.freeId parent single)

/-- Renames an object; answers with its new id. -/
def rename (key name : String) : Except Rejection (Graph × String) := do
  let (old, new) ← g.renameTarget key name
  if old = new then return (g, new)
  else return (g.applyMapping (TextMap.ofList (g.transplant old new)), new)

end Graph

end BoxDiagram
