/-!
# Text: lines

A line ends at a line feed, which takes along one carriage return right before it. The line feed at
the end of a text ends its last line and opens no further one; a carriage return elsewhere is an
ordinary character.
-/

namespace BoxDiagram.Text

/-- Drops one carriage return at the end. -/
def dropReturn (cs : List Char) : List Char :=
  if cs.getLast? = some '\r' then cs.dropLast else cs

/-- The lines of a text, given its pieces between line feeds. -/
def linesOfPieces : List (List Char) → List (List Char)
  | [] => []
  | [last] => if last = [] then [] else [last]
  | piece :: rest => dropReturn piece :: linesOfPieces rest

def lines (cs : List Char) : List (List Char) := linesOfPieces (cs.splitOn '\n')

end BoxDiagram.Text
