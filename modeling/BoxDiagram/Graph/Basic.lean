import BoxDiagram.Attribute
import BoxDiagram.Key
import BoxDiagram.Statement.Basic
import BoxDiagram.TextMap

/-!
# Graphs: objects, edges and the board

A graph holds its objects in the order in which they were declared, each with a dotted id, the id of
its parent and its attributes; whatever gives an object its id gives it the parent too. Edges
connect ids and are kept in order as well; parallel edges are told apart by their position among the
edges between the same endpoints. The board has attributes of its own. A graph may also hold the
statements it is printed from.
-/

namespace BoxDiagram

/-- An object, with the id of its parent; none at the root. -/
@[ext]
structure Object where
  id : String
  parent? : Option String
  attributes : Attributes
  parent_eq : parent? = Dotted.parent? id
  deriving DecidableEq, Repr

namespace Object

/-- A new object, without attributes. -/
def blank (id : String) : Object := ⟨id, Dotted.parent? id, ∅, rfl⟩

instance : Inhabited Object := ⟨blank ""⟩

/-- The name of the object below its parent. -/
def name (o : Object) : String := Dotted.leaf o.id

/-- The label, or else the name. -/
def label (o : Object) : String := (o.attributes.get? "label").getD o.name

/-- The shape, or else the default one. -/
def shape (o : Object) : String := (o.attributes.get? "shape").getD Attribute.defaultShape

/-- The object with an attribute written, or erased if there is no value. -/
def assign (o : Object) (name : String) (value : Option String) : Object :=
  { o with attributes := o.attributes.assign name value }

/-- The object under another id, which also gives it another parent. -/
def withId (o : Object) (id : String) : Object := ⟨id, Dotted.parent? id, o.attributes, rfl⟩

end Object

/-- A connection between two ids. -/
structure Edge where
  source : String
  target : String
  arrow : Arrow
  attributes : Attributes
  deriving DecidableEq, Repr, Inhabited

namespace Edge

/-- A new edge, without attributes. -/
def blank (source : String) (arrow : Arrow) (target : String) : Edge := ⟨source, target, arrow, ∅⟩

/-- The public id of the edges between these endpoints. -/
def publicId (e : Edge) : String := edgeId e.source e.target

/-- The label, if there is one. -/
def label? (e : Edge) : Option String := e.attributes.get? "label"

/-- Does the edge lead from `source` to `target`? -/
def joins (source target : String) (e : Edge) : Bool := e.source = source && e.target = target

/-- Does the edge touch one of the ids? -/
def touches (ids : List String) (e : Edge) : Bool := ids.contains e.source || ids.contains e.target

/-- The edge with an attribute written, or erased if there is no value. -/
def assign (e : Edge) (name : String) (value : Option String) : Edge :=
  { e with attributes := e.attributes.assign name value }

end Edge

structure Graph where
  objects : List Object
  edges : List Edge
  board : Attributes
  statements : Option (List Statement)
  deriving DecidableEq, Repr

namespace Graph

/-- The graph without objects, edges, attributes and statements. -/
def empty : Graph := ⟨[], [], ∅, none⟩

instance : EmptyCollection Graph := ⟨empty⟩

instance : Inhabited Graph := ⟨empty⟩

variable (g : Graph)

/-! ### Objects -/

def ids : List String := g.objects.map (·.id)

/-- The object with an id. -/
def find? (id : String) : Option Object := g.objects.find? (·.id = id)

/-- Is there an object with the id? -/
def contains (id : String) : Bool := g.ids.contains id

/-- The objects right below a parent, or at the root if there is none. -/
def childObjects (parent : Option String) : List Object := g.objects.filter (·.parent? = parent)

/-- The ids of the objects right below a parent. -/
def children (parent : Option String) : List String := (g.childObjects parent).map (·.id)

/-- The ids strictly below an id. -/
def descendants (id : String) : List String :=
  g.ids.filter fun x => x ≠ id && Dotted.isWithin x id

/-- An id and those below it. -/
def subtree (id : String) : List String := id :: g.descendants id

/-- The ids that are missing on the way from an id up to the first object, the outermost first. -/
def missing (id : String) : List String :=
  ((Dotted.lineage id).takeWhile (!g.contains ·)).reverse

/-- The graph with an object at the id and its ancestors up to the first one that is there. -/
def ensure (id : String) : Graph :=
  { g with objects := g.objects ++ (g.missing id).map Object.blank }

/-- The graph with an attribute of an object written or erased. -/
def assignObject (id name : String) (value : Option String) : Graph :=
  { g with objects := g.objects.map fun o => if o.id = id then o.assign name value else o }

/-- The graph with an attribute of the board written or erased. -/
def assignBoard (name : String) (value : Option String) : Graph :=
  { g with board := g.board.assign name value }

/-- The graph without the objects with the given ids and without the edges that touch one. -/
def removeObjects (ids : List String) : Graph :=
  { g with
    objects := g.objects.filter fun o => !ids.contains o.id
    edges := g.edges.filter fun e => !e.touches ids }

/-- Puts an object in the place of the one with the same id, or at the end. -/
def put (os : List Object) (o : Object) : List Object :=
  if os.any (·.id = o.id) then os.map fun x => if x.id = o.id then o else x else os ++ [o]

/-- The graph with every id replaced. Where objects come to share an id, the last one takes the
place of the first. -/
def remap (f : String → String) : Graph :=
  { g with
    objects := (g.objects.map fun o => o.withId (f o.id)).foldl put []
    edges := g.edges.map fun e => { e with source := f e.source, target := f e.target } }

/-- Do two graphs hold the same? The order of the objects does not count, that of the edges does. -/
def agreesWith (h : Graph) : Bool :=
  g.objects.length = h.objects.length && g.objects.all (h.objects.contains ·) &&
    g.edges = h.edges && g.board = h.board && g.statements = h.statements

/-! ### Edges -/

/-- The positions of the edges with a property. -/
def positions (p : Edge → Bool) : List Nat := (g.edges.zipIdx.filter (p ·.1)).map (·.2)

/-- The positions of the edges from `source` to `target`. -/
def edgesBetween (source target : String) : List Nat := g.positions (Edge.joins source target)

/-- The position of the edge with the given number from `source` to `target`. -/
def nthEdge? (source target : String) (n : Nat) : Option Nat := (g.edgesBetween source target)[n]?

/-- The position of the edge that a key addresses; without an index, the first one. -/
def edgeAt? (k : EdgeKey) : Option Nat := g.nthEdge? k.sourceId k.targetId (k.index.getD 0)

/-- The graph with one more edge, at the end. -/
def addEdge (e : Edge) : Graph := { g with edges := g.edges ++ [e] }

/-- The graph without the edge at a position. -/
def removeEdge (i : Nat) : Graph := { g with edges := g.edges.eraseIdx i }

/-- The graph with an attribute of the edge at a position written or erased. -/
def assignEdge (i : Nat) (name : String) (value : Option String) : Graph :=
  { g with edges := g.edges.modify i (·.assign name value) }

/-- The public id of an edge at a position: its endpoints, or the position itself if an endpoint is
no object. -/
def publicIdOf (e : Edge) (i : Nat) : String :=
  if g.contains e.source && g.contains e.target then e.publicId else toString i

/-- The public id of the edge at a position. -/
def publicId? (i : Nat) : Option String := g.edges[i]?.map (g.publicIdOf · i)

def publicIds : List String := g.edges.zipIdx.map fun (e, i) => g.publicIdOf e i

/-- The position of the first edge with a public id. -/
def findEdge? (id : String) : Option Nat := g.publicIds.findIdx? (· = id)

/-- The graph with the statements it is printed from replaced. -/
def withStatements (statements : Option (List Statement)) : Graph :=
  { g with statements := statements }

end Graph

end BoxDiagram
