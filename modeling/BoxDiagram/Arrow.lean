/-!
# Arrows: the four kinds and their tokens

A connection is written with one of the tokens `->`, `<-`, `<->` and `--` between its endpoints. The
tokens of a text are found from left to right; where a token starts, `<->` is tried before `<-`.
Cutting a text at its tokens leaves the gaps between them, one more than there are tokens.
-/

namespace BoxDiagram

inductive Arrow where
  | forward
  | backward
  | both
  | plain
  deriving DecidableEq, Repr, Inhabited

namespace Arrow

/-- The way an arrow is written. -/
def token : Arrow → String
  | forward => "->"
  | backward => "<-"
  | both => "<->"
  | plain => "--"

/-- The arrows in the order in which their tokens are tried. -/
def all : List Arrow := [both, forward, backward, plain]

/-- Is there a head at the source? -/
def headAtSource : Arrow → Bool
  | backward | both => true
  | forward | plain => false

/-- Is there a head at the target? -/
def headAtTarget : Arrow → Bool
  | forward | both => true
  | backward | plain => false

/-- Reads a token that makes up the whole text. -/
def ofToken? (s : String) : Option Arrow := all.find? (·.token = s)

/-- A text cut at its arrows: the first gap, then each arrow with the gap after it. -/
def cut : List Char → List Char × List (Arrow × List Char)
  | '<' :: '-' :: '>' :: r => let rest := cut r; ([], (both, rest.1) :: rest.2)
  | '-' :: '>' :: r => let rest := cut r; ([], (forward, rest.1) :: rest.2)
  | '<' :: '-' :: r => let rest := cut r; ([], (backward, rest.1) :: rest.2)
  | '-' :: '-' :: r => let rest := cut r; ([], (plain, rest.1) :: rest.2)
  | c :: r => let rest := cut r; (c :: rest.1, rest.2)
  | [] => ([], [])

/-- Where an arrow stands in a text, in bytes of its UTF-8 form. -/
structure Span where
  start : Nat
  stop : Nat
  arrow : Arrow
  deriving DecidableEq, Repr

/-- The number of bytes of a list of characters in UTF-8. -/
def byteLength (cs : List Char) : Nat := cs.foldr (fun c n => c.utf8Size + n) 0

/-- The spans of arrows that each follow a gap, where the first gap starts at `start`. -/
def spansFrom (start : Nat) (gap : List Char) : List (Arrow × List Char) → List Span
  | [] => []
  | (arrow, next) :: rest =>
    let opened := start + byteLength gap
    let closed := opened + byteLength arrow.token.toList
    ⟨opened, closed, arrow⟩ :: spansFrom closed next rest

def spans (s : String) : List Span := spansFrom 0 (cut s.toList).1 (cut s.toList).2

/-- Does the text hold an arrow? -/
def occursIn (s : String) : Bool := (cut s.toList).2 ≠ []

end Arrow

end BoxDiagram
