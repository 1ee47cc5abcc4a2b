import BoxDiagram.Graph.Basic

/-!
# Views: what a graph shows to its readers
-/

namespace BoxDiagram

structure ObjectView where
  id : String
  label : String
  shape : String
  parent : Option String
  attributes : Attributes
  deriving DecidableEq, Repr

/-- The value of an attribute of an edge: a text, or one of the two flags for arrow heads. -/
inductive EdgeValue where
  | text (value : String)
  | flag (value : Bool)
  deriving DecidableEq, Repr

structure EdgeView where
  id : String
  source : String
  target : String
  label : Option String
  attributes : TextMap EdgeValue
  deriving DecidableEq, Repr

structure GraphView where
  objects : List ObjectView
  edges : List EdgeView
  deriving DecidableEq, Repr

namespace GraphView

/-- The object that is shown with an id. -/
def object? (v : GraphView) (id : String) : Option ObjectView := v.objects.find? (·.id = id)

/-- The first edge that is shown with an id. -/
def edge? (v : GraphView) (id : String) : Option EdgeView := v.edges.find? (·.id = id)

end GraphView

def Object.view (o : Object) : ObjectView := ⟨o.id, o.label, o.shape, o.parent?, o.attributes⟩

/-- The view of an edge under a public id; the flags for arrow heads take precedence over attributes
of the same names. -/
def Edge.view (e : Edge) (id : String) : EdgeView where
  id := id
  source := e.source
  target := e.target
  label := e.label?
  attributes :=
    let texts := TextMap.ofList (e.attributes.entries.map fun (name, value) => (name, .text value))
    (texts.insert "src_arrow" (.flag e.arrow.headAtSource)).insert
      "dst_arrow" (.flag e.arrow.headAtTarget)

namespace Graph

def view (g : Graph) : GraphView where
  objects := g.objects.map Object.view
  edges := g.edges.zipIdx.map fun (e, i) => e.view (g.publicIdOf e i)

/-- The view of the edge at a position. -/
def edgeView? (g : Graph) (i : Nat) : Option EdgeView :=
  g.edges[i]?.map fun e => e.view (g.publicIdOf e i)

end Graph

end BoxDiagram
