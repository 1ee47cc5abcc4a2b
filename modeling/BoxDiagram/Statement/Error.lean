import BoxDiagram.Key

/-!
# Syntax errors

What can be wrong with the text of a diagram, and the line where it shows.
-/

namespace BoxDiagram

/-- What can be wrong with a line. -/
inductive SyntaxCause where
  | unterminatedQuote
  | textAfterQuote (text : String)
  | missingKey (piece : String)
  | invalidEndpoint (error : KeyError)
  | invalidKey (error : KeyError)
  | unexpectedClose
  | unclosedBlock
  deriving DecidableEq, Repr

namespace SyntaxCause

def message : SyntaxCause → String
  | unterminatedQuote => "unterminated quoted string"
  | textAfterQuote text => "unexpected text after quoted value: '" ++ text ++ "'"
  | missingKey piece => "missing key in '" ++ piece ++ "'"
  | invalidEndpoint error => "invalid endpoint: " ++ error.message
  | invalidKey error => "invalid key: " ++ error.message
  | unexpectedClose => "unexpected '\x7d'"
  | unclosedBlock => "block is never closed (missing '\x7d')"

end SyntaxCause

/-- A cause with the number of its line; the first line is 1. -/
structure SyntaxError where
  line : Nat
  cause : SyntaxCause
  deriving DecidableEq, Repr

namespace SyntaxError

def message (e : SyntaxError) : String := "line " ++ toString e.line ++ ": " ++ e.cause.message

end SyntaxError

end BoxDiagram
