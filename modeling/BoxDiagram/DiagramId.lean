import BoxDiagram.Text.Blank

/-!
# Diagram ids

A diagram id is also the stem of the file a diagram is saved to, so it is not blank and holds no
slash.
-/

namespace BoxDiagram

/-- What can be wrong with a diagram id. -/
inductive DiagramIdError where
  | empty
  | containsSlash
  deriving DecidableEq, Repr

namespace DiagramIdError

def message : DiagramIdError → String
  | empty => "diagram ID is required"
  | containsSlash => "id must not contain '/'"

end DiagramIdError

/-- A text that can name a diagram. -/
def IsDiagramId (s : String) : Prop := Text.trim s.toList ≠ [] ∧ '/' ∉ s.toList

structure DiagramId where
  text : String
  isDiagramId : IsDiagramId text
  deriving DecidableEq

namespace DiagramId

instance : Repr DiagramId where
  reprPrec id n := reprPrec id.text n

/-- The id with the given text, as it stands. -/
def ofText (s : String) : Except DiagramIdError DiagramId :=
  if hb : Text.trim s.toList = [] then .error .empty
  else if hs : '/' ∈ s.toList then .error .containsSlash
  else .ok ⟨s, hb, hs⟩

/-- Reads an id; blanks around it do not count. -/
def parse (s : String) : Except DiagramIdError DiagramId := ofText (Text.trimmed s)

end DiagramId

end BoxDiagram
