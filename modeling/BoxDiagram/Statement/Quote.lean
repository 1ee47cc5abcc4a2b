import BoxDiagram.Text.Blank

/-!
# Quotes: values that hold punctuation

A value stands as it is, or between double quotes, where a backslash escapes the character after
it. A reader that looks for punctuation outside quotes goes through three states: outside of quotes,
inside of them, and inside right after a backslash. A value is written in quotes only if it needs
them.
-/

namespace BoxDiagram

open Text

/-- Where a reader stands with respect to quotes. -/
inductive QuoteState where
  | outside
  | inside
  | escaped
  deriving DecidableEq, Repr

namespace QuoteState

/-- The state after one more character. -/
def next : QuoteState → Char → QuoteState
  | outside, c => if c = '"' then inside else outside
  | inside, c => if c = '\\' then escaped else if c = '"' then outside else inside
  | escaped, _ => inside

/-- The state after a text. -/
def after (q : QuoteState) (cs : List Char) : QuoteState := cs.foldl next q

/-- The pieces of a text between the separators that stand outside quotes. -/
def splitOutside (separator : Char) : QuoteState → List Char → List (List Char)
  | _, [] => [[]]
  | q, c :: rest =>
    if q = outside ∧ c = separator then [] :: splitOutside separator outside rest
    else match splitOutside separator (q.next c) rest with
      | [] => [[c]]
      | piece :: pieces => (c :: piece) :: pieces

/-- The texts before and after the first mark that stands outside quotes. -/
def breakOutside? (mark : Char) : QuoteState → List Char → Option (List Char × List Char)
  | _, [] => none
  | q, c :: rest =>
    if q = outside ∧ c = mark then some ([], rest)
    else (breakOutside? mark (q.next c) rest).map fun (before, after) => (c :: before, after)

end QuoteState

namespace Value

/-- The characters that a value can hold only in quotes. -/
def triggers : List Char := [';', '\x7b', '\x7d', '#', '"', '\\', '\n', '\t']

/-- A value needs quotes if it is empty, has blanks at an end, or holds a character that would be
read as something else. -/
def needsQuotes (cs : List Char) : Bool := cs = [] || trim cs ≠ cs || cs.any triggers.contains

/-- One character between quotes. -/
def escapeChar (c : Char) : List Char :=
  if c = '"' then ['\\', '"']
  else if c = '\\' then ['\\', '\\']
  else if c = '\n' then ['\\', 'n']
  else if c = '\t' then ['\\', 't']
  else [c]

/-- The character that an escaped one stands for. -/
def unescapeChar (c : Char) : Char := if c = 'n' then '\n' else if c = 't' then '\t' else c

/-- The written form of a value. -/
def quote (s : String) : String :=
  if needsQuotes s.toList then String.ofList ('"' :: s.toList.flatMap escapeChar ++ ['"']) else s

/-- Reads what follows an opening quote: the value and the text after the closing quote. -/
def readQuoted? : List Char → Option (List Char × List Char)
  | [] => none
  | '"' :: rest => some ([], rest)
  | ['\\'] => none
  | '\\' :: c :: rest =>
    (readQuoted? rest).map fun (value, left) => (unescapeChar c :: value, left)
  | c :: rest => (readQuoted? rest).map fun (value, left) => (c :: value, left)

end Value

end BoxDiagram
