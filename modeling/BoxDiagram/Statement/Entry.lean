import BoxDiagram.Statement.Basic
import BoxDiagram.Statement.Error
import BoxDiagram.Statement.Quote

/-!
# Pieces and entries: the statements of a line

A line is cut into pieces at the semicolons outside quotes, and closing braces in front of a piece
are pieces of their own. A piece that is no closing brace is read as an entry: a head, a value after
the first colon outside quotes, and at the end a mark for an empty block or for a block that opens.
-/

namespace BoxDiagram

open Text

/-- A part of a line: a closing brace, or the text of a statement. -/
inductive Piece where
  | close
  | text (cs : List Char)
  deriving DecidableEq, Repr

namespace Piece

/-- Takes off the closing braces in front, and the blanks around them. -/
def peel : List Char → List Piece
  | [] => []
  | c :: rest =>
    if isBlank c then peel rest
    else if c = '\x7d' then close :: peel rest
    else [text (c :: rest)]

/-- The pieces of a line without blanks around it. A line with a hash sign in front is a comment. -/
def ofTrimmed (cs : List Char) : Except SyntaxCause (List Piece) :=
  if cs.head? = some '#' then .ok []
  else if QuoteState.outside.after cs ≠ .outside then .error .unterminatedQuote
  else .ok ((QuoteState.splitOutside ';' .outside cs).flatMap fun piece => peel (trimEnd piece))

def ofLine (cs : List Char) : Except SyntaxCause (List Piece) := ofTrimmed (trim cs)

end Piece

/-- The mark at the end of an entry: none, an empty block, or a block that opens. -/
inductive Marker where
  | absent
  | empty
  | opening
  deriving DecidableEq, Repr

namespace Marker

/-- Splits a text into its body and the mark at its end. -/
def strip (cs : List Char) : List Char × Marker :=
  match cs.reverse with
  | '\x7d' :: '\x7b' :: rest => (trimEnd rest.reverse, empty)
  | '\x7b' :: rest => (trimEnd rest.reverse, opening)
  | _ => (cs, absent)

/-- The block that the mark itself gives. -/
def block? : Marker → Option (List Statement)
  | empty => some []
  | absent | opening => none

end Marker

namespace Value

/-- Reads a value; nothing but blanks is no value. -/
def read (cs : List Char) : Except SyntaxCause (Option String) :=
  match trim cs with
  | [] => .ok none
  | '"' :: rest =>
    match readQuoted? rest with
    | none => .error .unterminatedQuote
    | some (value, left) =>
      if trim left = [] then .ok (some (String.ofList value))
      else .error (.textAfterQuote (String.ofList (trim left)))
  | cs => .ok (some (String.ofList cs))

end Value

namespace Head

/-- Reads a head; `piece` is the statement it belongs to. -/
def read (piece cs : List Char) : Except SyntaxCause Head :=
  let cs := trim cs
  if cs = [] then .error (.missingKey (String.ofList piece))
  else match Key.splitChain? cs with
    | some (endpoints, arrows) => do
      let paths ← endpoints.mapM fun e => (Key.readPath e).mapError .invalidEndpoint
      return .connection paths arrows
    | none => ((Key.readPath cs).mapError .invalidKey).map .declaration

end Head

/-- A statement as far as its own piece tells it. -/
structure Entry where
  head : Head
  value : Option String
  marker : Marker
  deriving DecidableEq, Repr

namespace Entry

/-- Reads the text of a statement. The value is read first, so its errors come first. -/
def read (piece : List Char) : Except SyntaxCause Entry := do
  let (body, marker) := Marker.strip piece
  let (key, rest) := (QuoteState.breakOutside? ':' .outside body).getD (body, [])
  let value ← Value.read rest
  let head ← Head.read piece key
  return ⟨head, value, marker⟩

/-- The statement, apart from the block that it may open. -/
def statement (e : Entry) : Statement := ⟨e.head, e.value, e.marker.block?⟩

end Entry

end BoxDiagram
