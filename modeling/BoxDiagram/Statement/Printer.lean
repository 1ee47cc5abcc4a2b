import BoxDiagram.Dotted
import BoxDiagram.Statement.Basic
import BoxDiagram.Statement.Quote

/-!
# Writing diagram texts

A statement takes one line; a block with statements takes the lines between its braces, indented by
two blanks more. Values are quoted only where they need it.
-/

namespace BoxDiagram

namespace Head

/-- The endpoints of a chain with the arrows between them. -/
def renderChain : List String → List Arrow → String
  | [], _ => ""
  | e :: rest, [] => e ++ String.join rest
  | [e], _ :: _ => e
  | e :: rest, arrow :: arrows => e ++ " " ++ arrow.token ++ " " ++ renderChain rest arrows

def render : Head → String
  | .declaration path => Dotted.join path
  | .connection endpoints arrows => renderChain (endpoints.map Dotted.join) arrows

end Head

namespace Statement

/-- The blanks in front of a line. -/
def indent (depth : Nat) : String := String.ofList (List.replicate (2 * depth) ' ')

/-- A head with the value after it. -/
def renderTop (head : Head) : Option String → String
  | some value => head.render ++ ": " ++ Value.quote value
  | none => head.render

/-- A head with the value after it, or with a colon alone, in front of a block. -/
def renderOpener (head : Head) (value : Option String) : String :=
  if value.isSome then renderTop head value else renderTop head value ++ ":"

mutual

def lines (depth : Nat) : Statement → List String
  | ⟨head, value, none⟩ => [indent depth ++ renderTop head value]
  | ⟨head, value, some []⟩ => [indent depth ++ renderOpener head value ++ " \x7b\x7d"]
  | ⟨head, value, some (s :: rest)⟩ =>
    (indent depth ++ renderOpener head value ++ " \x7b") ::
      (lines (depth + 1) s ++ linesAll (depth + 1) rest) ++ [indent depth ++ "\x7d"]

/-- The lines of statements one after the other. -/
def linesAll (depth : Nat) : List Statement → List String
  | [] => []
  | s :: rest => lines depth s ++ linesAll depth rest

end

/-- Lines as a text, each ended by a line feed. -/
def textOfLines (lines : List String) : String := String.join (lines.map (· ++ "\n"))

def print (statements : List Statement) : String := textOfLines (linesAll 0 statements)

end Statement

end BoxDiagram
