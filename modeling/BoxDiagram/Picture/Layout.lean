import BoxDiagram.Graph.Forest
import BoxDiagram.Text.Lines

/-!
# Layout: nested boxes

Siblings are stacked one below the other, or side by side if the board grows to the left or the
right, and a container wraps its children. A first pass along the children fills a table of sizes, a
second one a table of rectangles; both tables are looked up by id.
-/

namespace BoxDiagram

namespace Layout

def margin : Float := 24

/-- The room between a container and its contents. -/
def padding : Float := 20

def gap : Float := 48

/-- The height of a box without contents. -/
def leafHeight : Float := 56

/-- The least width of a box. -/
def minWidth : Float := 80

/-- The room for the label of a container. -/
def header : Float := 28

/-- The approximate width of a character. -/
def charWidth : Float := 8.5

/-- The number of characters of a label that are drawn. -/
def maxLabel : Nat := 48

def larger (a b : Float) : Float := if a < b then b else a

/-- The label as it is drawn: its first line, cut off if it is long. -/
def displayLabel (label : String) : String :=
  let line := (Text.lines label.toList).headD []
  if line.length ≤ maxLabel then String.ofList line
  else String.ofList (line.take (maxLabel - 1) ++ ['…'])

def labelWidth (label : String) : Float := Float.ofNat label.length * charWidth

end Layout

/-- A rectangle, by its upper left corner and its size. -/
structure Rect where
  x : Float
  y : Float
  width : Float
  height : Float
  deriving Repr, Inhabited

namespace Rect

/-- The same place and size. -/
def same (a b : Rect) : Bool :=
  a.x == b.x && a.y == b.y && a.width == b.width && a.height == b.height

/-- The middle from left to right. -/
def centerX (r : Rect) : Float := r.x + r.width / 2

/-- The middle from top to bottom. -/
def centerY (r : Rect) : Float := r.y + r.height / 2

/-- The part of the way along one axis after which a ray from the centre leaves the rectangle. -/
def exitTime (extent direction : Float) : Float :=
  if direction == 0 then 1.0 / 0.0 else extent / 2 / direction.abs

/-- The point where the ray from the centre in a direction leaves the rectangle; the centre itself
if there is no direction. -/
def borderTowards (r : Rect) (dx dy : Float) : Float × Float :=
  let tx := exitTime r.width dx
  let ty := exitTime r.height dy
  let t := if ty < tx then ty else tx
  if t.isFinite then (r.centerX + dx * t, r.centerY + dy * t) else (r.centerX, r.centerY)

end Rect

namespace Layout

/-- The sizes that were found so far, by id. -/
abbrev Sizes := TextMap (Float × Float)

/-- The rectangles that were found so far, by id. -/
abbrev Rects := TextMap Rect

/-- The size that was found for an id, or else that of the smallest box. -/
def sizeAt (sizes : Sizes) (id : String) : Float × Float :=
  (sizes.get? id).getD (minWidth, leafHeight)

/-- The size of siblings stacked along one axis. -/
def stack (horizontal : Bool) (sizes : Sizes) (ids : List String) : Float × Float :=
  let gaps := gap * Float.ofNat (ids.length - 1)
  let total := ids.foldl (fun (along, across) id =>
    let (w, h) := sizeAt sizes id
    if horizontal then (along + w, larger across h) else (along + h, larger across w)) (gaps, 0)
  if horizontal then total else (total.2, total.1)

/-- The size of an object whose children have been measured. -/
def size (horizontal : Bool) (sizes : Sizes) (object : Object) (children : List String) :
    Float × Float :=
  let textWidth := labelWidth (displayLabel object.label) + 2 * padding
  if children.isEmpty then
    let w := larger textWidth minWidth
    if object.shape = "circle" ∨ object.shape = "square" then
      (larger w leafHeight, larger w leafHeight)
    else (w, leafHeight)
  else
    let (w, h) := stack horizontal sizes children
    (larger (w + 2 * padding) textWidth, h + 2 * padding + header)

section Passes

variable (g : Graph) (horizontal : Bool)

/-- Finds the sizes of the object with an id and of all that is below it, the children first. -/
def measure (sizes : Sizes) (id : String) : Sizes :=
  match g.find? id with
  | none => sizes
  | some object =>
    let children := g.children (some id)
    let sizes := children.attach.foldl (fun sizes ⟨c, h⟩ =>
      have := g.length_lt_of_mem_children h
      measure sizes c) sizes
    sizes.insert id (size horizontal sizes object children)
termination_by g.longest - id.length

theorem measure_eq (sizes : Sizes) (id : String) : measure g horizontal sizes id =
    match g.find? id with
    | none => sizes
    | some object =>
      let sizes := (g.children (some id)).foldl (measure g horizontal) sizes
      sizes.insert id (size horizontal sizes object (g.children (some id))) := by
  rw [measure]
  simp

/-- The corner of what comes after a box of the given size. -/
def nextCorner (size corner : Float × Float) : Float × Float :=
  if horizontal then (corner.1 + (size.1 + gap), corner.2) else (corner.1, corner.2 + (size.2 + gap))

/-- The corner of the first child of a box. -/
def innerCorner (corner : Float × Float) : Float × Float :=
  (corner.1 + padding, corner.2 + header + padding)

def rectAt (size corner : Float × Float) : Rect := ⟨corner.1, corner.2, size.1, size.2⟩

variable (sizes : Sizes)

/-- Finds the rectangles of an id and of all that is below it, with the corner of the first given. -/
def place (corner : Float × Float) (rects : Rects) (id : String) : Rects :=
  let rects := rects.insert id (rectAt (sizeAt sizes id) corner)
  ((g.children (some id)).attach.foldl (fun (corner, rects) ⟨c, h⟩ =>
    have := g.length_lt_of_mem_children h
    (nextCorner horizontal (sizeAt sizes c) corner, place corner rects c))
    (innerCorner corner, rects)).2
termination_by g.longest - id.length

/-- Finds the rectangles of siblings and of all that is below them. -/
def placeAll (corner : Float × Float) (rects : Rects) (ids : List String) : Rects :=
  (ids.foldl (fun (corner, rects) id =>
    (nextCorner horizontal (sizeAt sizes id) corner, place g horizontal sizes corner rects id))
    (corner, rects)).2

theorem place_eq (corner : Float × Float) (rects : Rects) (id : String) :
    place g horizontal sizes corner rects id =
      placeAll g horizontal sizes (innerCorner corner)
        (rects.insert id (rectAt (sizeAt sizes id) corner)) (g.children (some id)) := by
  rw [place, placeAll]
  conv =>
    rhs
    rw [← List.attach_map_subtype_val (g.children (some id)), List.foldl_map]

end Passes

end Layout

/-- The rectangles of a picture, with its width and height. -/
structure Layout where
  rects : Layout.Rects
  width : Float
  height : Float
  deriving Repr

namespace Layout

/-- Does the board grow to a side? -/
def isHorizontal (g : Graph) : Bool :=
  let direction := g.board.get? "direction"
  direction = some "left" || direction = some "right"

def ofGraph (g : Graph) : Layout :=
  let horizontal := isHorizontal g
  let roots := g.children none
  let sizes := roots.foldl (measure g horizontal) ∅
  let (w, h) := stack horizontal sizes roots
  ⟨placeAll g horizontal sizes (margin, margin) ∅ roots, w + 2 * margin, h + 2 * margin⟩

/-- The rectangle of the object with an id. -/
def rect? (l : Layout) (id : String) : Option Rect := l.rects.get? id

end Layout

end BoxDiagram
