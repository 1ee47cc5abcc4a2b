import BoxDiagram.Graph.Forest
import BoxDiagram.Statement.Printer

/-!
# Canonical statements

The statements that a graph is written with after an edit: the attributes of the board; each root
with its label as the value and, in its block, its other attributes and its children; and last the
edges, each a connection of its own with its label as the value and its other attributes in its
block.
-/

namespace BoxDiagram

/-- A declaration for each attribute but the label. -/
def Attributes.statements (m : Attributes) : List Statement :=
  (m.entries.filter (·.1 ≠ "label")).map fun (name, value) =>
    .assignment (Dotted.segments name) value

namespace Statement

/-- The statement with the given body as its block, or without a block if there is no body. -/
def ofBody (head : Head) (value : Option String) (body : List Statement) : Statement :=
  ⟨head, value, if body = [] then none else some body⟩

end Statement

namespace Tree

mutual

/-- The statement that declares a tree of objects. -/
def statement : Tree → Statement
  | ⟨object, children⟩ =>
    .ofBody (.declaration [object.name]) (object.attributes.get? "label")
      (Attributes.statements object.attributes ++ statementsAll children)

/-- The statements of trees one after the other. -/
def statementsAll : List Tree → List Statement
  | [] => []
  | t :: rest => statement t :: statementsAll rest

end

end Tree

/-- The statement that declares an edge. -/
def Edge.statement (e : Edge) : Statement :=
  .ofBody (.connection [Dotted.segments e.source, Dotted.segments e.target] [e.arrow]) e.label?
    (Attributes.statements e.attributes)

namespace Graph

variable (g : Graph)

/-- The declarations of the attributes of the board, the label among them. -/
def boardStatements : List Statement :=
  g.board.entries.map fun (name, value) => .assignment (Dotted.segments name) value

def canonical : List Statement :=
  g.boardStatements ++ Tree.statementsAll g.forest ++ g.edges.map Edge.statement

/-- The graph, to be printed from its canonical statements. -/
def refresh : Graph := g.withStatements (some g.canonical)

/-- The text of the statements that the graph holds, if it holds any. -/
def format : Option String := g.statements.map Statement.print

end Graph

end BoxDiagram
