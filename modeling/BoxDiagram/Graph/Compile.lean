import BoxDiagram.Graph.Command
import BoxDiagram.Statement.Parser

/-!
# From text to graph
-/

namespace BoxDiagram

/-- What can be wrong with a diagram text. -/
inductive CompileError where
  | unreadable (error : SyntaxError)
  | meaningless (error : SemanticError)
  deriving DecidableEq, Repr

namespace CompileError

def message : CompileError → String
  | unreadable error => error.message
  | meaningless error => error.message

end CompileError

/-- The graph that a text describes. -/
def compile (text : String) : Except CompileError Graph := do
  let statements ← (Statement.parse text).mapError .unreadable
  (Graph.lower statements).mapError .meaningless

end BoxDiagram
