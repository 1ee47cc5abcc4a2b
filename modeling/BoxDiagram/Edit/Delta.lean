import BoxDiagram.Edit.Remap

/-!
# Deltas: which ids an edit changes

A delta gives the new id for each old one; an element that is gone has the empty text.
-/

namespace BoxDiagram

/-- Old ids with the new ones, or with the empty text. -/
abbrev Deltas := TextMap String

namespace Graph

open Edit

variable (g : Graph)

/-- The public ids of the edges that touch one of the ids. -/
def touchingIds (ids : List String) : List String :=
  (g.edges.zipIdx.filter fun (e, _) => e.touches ids).map fun (e, i) => g.publicIdOf e i

/-- Ids that are gone. -/
def gone (ids : List String) : Deltas := TextMap.ofList (ids.map (·, ""))

/-- The ids that deleting a key removes. -/
def deleteDeltas (key : String) : Except Rejection Deltas := do
  match ← parseKey key with
  | .object path attr =>
    if attr ≠ [] then return ∅
    else
      let ids := g.subtree (← g.existing path)
      return gone (g.touchingIds ids ++ ids)
  | .edge k =>
    if k.attr ≠ [] then return ∅
    else return gone (g.publicId? (← g.resolve k)).toList

/-- The public ids of the edges whose endpoints a mapping replaces, with the new ones. -/
def edgeDeltas (mapping : TextMap String) : List (String × String) :=
  g.edges.zipIdx.filterMap fun (e, i) =>
    let source := (mapping.get? e.source).getD e.source
    let target := (mapping.get? e.target).getD e.target
    if source = e.source ∧ target = e.target then none
    else some (g.publicIdOf e i, edgeId source target)

/-- The ids that renaming an object replaces. -/
def renameDeltas (key name : String) : Except Rejection Deltas := do
  let (old, new) ← g.renameTarget key name
  if old = new then return ∅
  else
    let pairs := g.transplant old new
    return TextMap.ofList (pairs ++ g.edgeDeltas (TextMap.ofList pairs))

/-- The public ids that occur less often after than before, and the objects that are gone. -/
def removedIds (before after : Graph) : Deltas :=
  gone (before.publicIds.filter (fun id => after.publicIds.count id < before.publicIds.count id) ++
    before.ids.filter (!after.contains ·))

end Graph

end BoxDiagram
