import BoxDiagram.Picture.Element
import BoxDiagram.Picture.Layout
import BoxDiagram.Picture.Theme
import BoxDiagram.Text.Numeral
import BoxDiagram.Text.Shortest

/-!
# Painting: from a graph to markup

The picture has a background and two arrow heads, then a group for each object, a container before
its contents, and last a group for each edge between objects. Attributes of style override the
palette. What has no rectangle is not painted.
-/

namespace BoxDiagram

open Text

namespace Paint

/-- The id of the arrow head at the end of an edge. -/
def headAtEnd : String := "trellis-arrow-end"

/-- The id of the arrow head at the start of an edge. -/
def headAtStart : String := "trellis-arrow-start"

def fontSize : Float := 15

def edgeFontSize : Float := 13

/-- An attribute of an element, or else a default. -/
def styleOr (attributes : Attributes) (name default : String) : String :=
  (attributes.get? name).getD default

/-- Numbers one after the other, with blanks between them. -/
def numbers (xs : List Float) : String := " ".intercalate (xs.map renderFloat)

/-- A point of a polygon. -/
def point (x y : Float) : String := renderFloat x ++ "," ++ renderFloat y

def arrowHead (id path refX : String) (palette : Palette) : Element :=
  .ofAttributes "marker"
    [("id", id), ("viewBox", "0 0 10 10"), ("refX", refX), ("refY", "5"), ("markerWidth", "8"),
      ("markerHeight", "8"), ("orient", "auto")]
    [.ofAttributes "path" [("d", path), ("fill", palette.edge)] []]

/-- A label around a point. An element for text begins with a text of its own, which is empty. -/
def label (text : String) (x y : Float) (colour : String) (size : Float) : Element :=
  .ofAttributes "text"
    [("x", renderFloat x), ("y", renderFloat y), ("text-anchor", "middle"),
      ("dominant-baseline", "central"), ("font-family", "sans-serif"),
      ("font-size", renderFloat size), ("fill", colour)]
    [.text "", .text text]

/-! ### Objects -/

/-- An object with the rectangle that it is painted in. -/
structure Box where
  object : Object
  rect : Rect
  isContainer : Bool
  deriving Repr

def outline (b : Box) (palette : Palette) : List Element :=
  let style := styleOr b.object.attributes
  let r := b.rect
  let pen :=
    [("fill", style "style.fill" (if b.isContainer then palette.containerFill else palette.fill)),
      ("stroke", style "style.stroke" palette.stroke),
      ("stroke-width", style "style.stroke-width" "2"),
      ("stroke-dasharray", style "style.stroke-dash" "none")]
  let shape := b.object.shape
  if shape = "text" then []
  else if shape = "circle" ∨ shape = "oval" then
    [.ofAttributes "ellipse"
      ([("cx", renderFloat r.centerX), ("cy", renderFloat r.centerY),
        ("rx", renderFloat (r.width / 2)), ("ry", renderFloat (r.height / 2))] ++ pen) []]
  else if shape = "diamond" then
    let corners := [point r.centerX r.y, point (r.x + r.width) r.centerY,
      point r.centerX (r.y + r.height), point r.x r.centerY]
    [.ofAttributes "polygon" (("points", " ".intercalate corners) :: pen) []]
  else
    [.ofAttributes "rect"
      ([("x", renderFloat r.x), ("y", renderFloat r.y), ("width", renderFloat r.width),
        ("height", renderFloat r.height), ("rx", style "style.border-radius" "4")] ++ pen) []]

def object (b : Box) (palette : Palette) : Element :=
  let attributes := b.object.attributes
  let opacity := ((attributes.get? "style.opacity").map ("opacity", ·)).toList
  let size := (((attributes.get? "style.font-size").bind Numeral.read?).map Numeral.toFloat).getD
    fontSize
  let y := if b.isContainer then b.rect.y + Layout.header / 2 + 4 else b.rect.centerY
  .ofAttributes "g" ([("class", "shape"), ("data-id", b.object.id)] ++ opacity)
    (outline b palette ++
      [label (Layout.displayLabel b.object.label) b.rect.centerX y
        (styleOr attributes "style.font-color" palette.text) size])

/-- The group of the object with an id, if there is such an object and it has a rectangle. -/
def object? (g : Graph) (l : Layout) (palette : Palette) (id : String) : Option Element :=
  match g.find? id, l.rect? id with
  | some o, some r => some (object ⟨o, r, !(g.children (some id)).isEmpty⟩ palette)
  | _, _ => none

/-- The groups of the objects that are pending, and of all that is below them. The topmost id is
taken from the stack, its object is painted or skipped, and its children take its place, the first one
on top. -/
def objects (g : Graph) (l : Layout) (palette : Palette) : List String → List Element
  | [] => []
  | id :: pending =>
    (object? g l palette id).toList ++ objects g l palette (g.children (some id) ++ pending)
termination_by pending => g.extents pending
decreasing_by
  rw [g.extents_append, g.extents_cons, g.extent_eq id]
  omega

/-! ### Edges -/

/-- The path of an edge and the point of its label. An edge from an object to itself is a loop at
its right side, any other one a straight line between the borders. -/
def route (source target : Rect) : String × Float × Float :=
  if source.same target then
    let right := source.x + source.width
    let y := source.centerY
    ("M " ++ numbers [right, y - 10] ++ " C " ++
        numbers [right + 40, y - 30, right + 40, y + 30, right, y + 10],
      right + 36, y)
  else
    let dx := target.centerX - source.centerX
    let dy := target.centerY - source.centerY
    let (x1, y1) := source.borderTowards dx dy
    let (x2, y2) := target.borderTowards (-dx) (-dy)
    ("M " ++ numbers [x1, y1] ++ " L " ++ numbers [x2, y2], (x1 + x2) / 2, (y1 + y2) / 2)

/-- A reference to an arrow head. -/
def headRef (id : String) : String := "url(#" ++ id ++ ")"

/-- The group of an edge between two rectangles. -/
def edge (e : Edge) (source target : Rect) (palette : Palette) : Element :=
  let style := styleOr e.attributes
  let (path, x, y) := route source target
  let dash := ((e.attributes.get? "style.stroke-dash").map ("stroke-dasharray", ·)).toList
  let atTarget := if e.arrow.headAtTarget then [("marker-end", headRef headAtEnd)] else []
  let atSource := if e.arrow.headAtSource then [("marker-start", headRef headAtStart)] else []
  let line := Element.ofAttributes "path"
    ([("d", path), ("fill", "none"), ("stroke", style "style.stroke" palette.edge),
      ("stroke-width", style "style.stroke-width" "2")] ++ dash ++ atTarget ++ atSource) []
  let text := (e.label?.map fun text =>
    label (Layout.displayLabel text) x (y - 10) (style "style.font-color" palette.text)
      edgeFontSize).toList
  .ofAttributes "g" [("class", "connection"), ("data-id", e.publicId)] (line :: text)

/-- The group of an edge, if both ends have boxes. -/
def edge? (l : Layout) (palette : Palette) (e : Edge) : Option Element :=
  match l.rect? e.source, l.rect? e.target with
  | some source, some target => some (edge e source target palette)
  | _, _ => none

/-! ### The picture -/

def background (palette : Palette) : Element :=
  .ofAttributes "rect" [("width", "100%"), ("height", "100%"), ("fill", palette.background)] []

def definitions (palette : Palette) : Element :=
  .ofAttributes "defs" []
    [arrowHead headAtEnd "M 0 0 L 10 5 L 0 10 z" "9" palette,
      arrowHead headAtStart "M 10 0 L 0 5 L 10 10 z" "1" palette]

/-- The markup of a graph. -/
def document (w : Writer) (g : Graph) (palette : Palette) : Element :=
  let l := Layout.ofGraph g
  .ofAttributes "svg"
    (w.documentAttributes ++ [("viewBox", "0 0 " ++ numbers [l.width, l.height]),
      ("width", renderFloat l.width), ("height", renderFloat l.height)])
    (background palette :: definitions palette ::
      objects g l palette (g.children none) ++ g.edges.filterMap (edge? l palette))

end Paint

namespace Graph

/-- The picture of a graph as text. -/
def draw (w : Writer) (g : Graph) (palette : Palette) : String := w.write (Paint.document w g palette)

end Graph

end BoxDiagram
