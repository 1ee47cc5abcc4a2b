import BoxDiagram.Arrow
import BoxDiagram.Attribute
import BoxDiagram.Dotted
import BoxDiagram.Text.Blank
import BoxDiagram.Text.DecimalDigit
import BoxDiagram.Text.Numeral

/-!
# Keys: addresses of objects, connections and their attributes

A key addresses an object by its path (`system.database`), a connection by its endpoints (`a -> b`),
or one of several connections between the same endpoints by its position among them
(`(a -> b)[1]`). An attribute path may follow an object path or an indexed connection. Blanks
around names, endpoints and whole keys do not count.
-/

namespace BoxDiagram

open Text

/-- What can be wrong with a key. -/
inductive KeyError where
  | empty
  | emptySegment (key : String)
  | invalidCharacter (character : Char) (key : String)
  | attributeEndpoint (endpoint : String)
  | chain (key : String)
  | notAConnection (key : String)
  | invalidIndex (index : String)
  deriving DecidableEq, Repr

namespace KeyError

def message : KeyError → String
  | empty => "key must not be empty"
  | emptySegment key => "empty path segment in '" ++ key ++ "'"
  | invalidCharacter c key =>
    "invalid character '" ++ String.singleton c ++ "' in key '" ++ key ++ "'"
  | attributeEndpoint endpoint => "connection endpoint '" ++ endpoint ++ "' addresses an attribute"
  | chain key => "expected a single connection, got a chain: '" ++ key ++ "'"
  | notAConnection key => "expected a connection key, got '" ++ key ++ "'"
  | invalidIndex index => "connection index '" ++ index ++ "' is out of range"

end KeyError

/-- The address of a connection. Without an index it is the first one between its endpoints. -/
structure EdgeKey where
  source : List String
  target : List String
  arrow : Arrow
  index : Option Nat := none
  attr : List String := []
  deriving DecidableEq, Repr

/-- The address of an element of a diagram or of one of its attributes. An object path without
segments stands for the board. -/
inductive Key where
  | object (path attr : List String)
  | edge (key : EdgeKey)
  deriving DecidableEq, Repr

/-- The public id of a connection. -/
def edgeId (source target : String) : String := source ++ "->" ++ target

/-- The key of a connection with its position among those between the same endpoints. -/
def indexedEdgeKey (source : String) (arrow : Arrow) (target : String) (index : Nat) : String :=
  "(" ++ source ++ " " ++ arrow.token ++ " " ++ target ++ ")[" ++ toString index ++ "]"

namespace EdgeKey

def sourceId (k : EdgeKey) : String := Dotted.join k.source

def targetId (k : EdgeKey) : String := Dotted.join k.target

/-- The public id of the connections between the endpoints. -/
def publicId (k : EdgeKey) : String := edgeId k.sourceId k.targetId

end EdgeKey

namespace Key

/-- The characters that no name may hold. -/
def forbidden : List Char := [':', ';', '\x7b', '\x7d', '[', ']', '"', '#', '\n', '\r']

/-- The number of positions that an index can name. -/
def indexBound : Nat := 0x10000000000000000

/-! ### Paths and chains -/

/-- Reads a dotted path; blanks around the names are dropped. -/
def readPath (cs : List Char) : Except KeyError (List String) :=
  let cs := trim cs
  let key := String.ofList cs
  if cs = [] then .error .empty
  else match cs.find? forbidden.contains with
    | some c => .error (.invalidCharacter c key)
    | none =>
      let names := (cs.splitOn '.').map trim
      if names.contains [] then .error (.emptySegment key)
      else .ok (names.map String.ofList)

/-- Reads an endpoint, a path that addresses no attribute. -/
def readEndpoint (cs : List Char) : Except KeyError (List String) := do
  let path ← readPath cs
  if path.any Attribute.isReserved then
    .error (.attributeEndpoint (String.ofList (trim cs)))
  else .ok path

/-- The texts of the endpoints and the arrows between them, if there is an arrow at all. -/
def splitChain? (cs : List Char) : Option (List (List Char) × List Arrow) :=
  match Arrow.cut cs with
  | (_, []) => none
  | (first, hops) => some (trim first :: hops.map (trim ·.2), hops.map (·.1))

/-- The connections of a chain, in order. -/
def hops : List (List String) → List Arrow → List EdgeKey
  | source :: target :: rest, arrow :: arrows =>
    ⟨source, target, arrow, none, []⟩ :: hops (target :: rest) arrows
  | _, _ => []

/-- Reads every connection of a chain. -/
def readChain (cs : List Char) : Except KeyError (List EdgeKey) := do
  let cs := trim cs
  match splitChain? cs with
  | none => .error (.notAConnection (String.ofList cs))
  | some (endpoints, arrows) => return hops (← endpoints.mapM readEndpoint) arrows

/-- Reads a chain that is a single connection. -/
def readEdge (cs : List Char) : Except KeyError EdgeKey := do
  match ← readChain cs with
  | [key] => .ok key
  | _ => .error (.chain (String.ofList (trim cs)))

/-! ### Indexed connections -/

/-- The text of an indexed connection, cut up: what stands in the parentheses, the digits of the
index, and the text of the attribute path if there is one. -/
structure Indexed where
  inner : List Char
  index : List Char
  attr : Option (List Char)
  deriving DecidableEq, Repr

/-- What follows an index: nothing, or a dot and an attribute path on one line. -/
def readTail? : List Char → Option (Option (List Char))
  | [] => some none
  | '.' :: rest => if rest ≠ [] ∧ '\n' ∉ rest then some (some rest) else none
  | _ => none

/-- Reads the closing parenthesis, the index and what follows. -/
def readIndex? : List Char → Option (List Char × Option (List Char))
  | ')' :: '[' :: rest =>
    let digits := rest.takeWhile isDecimalDigit
    match rest.dropWhile isDecimalDigit with
    | ']' :: rest => if digits = [] then none else (readTail? rest).map (digits, ·)
    | _ => none
  | _ => none

/-- Cuts the text after the opening parenthesis at the last place where an index follows. -/
def cutIndexed? : List Char → Option Indexed
  | [] => none
  | c :: rest =>
    if c = '\n' then none
    else match cutIndexed? rest with
      | some cut => some { cut with inner := c :: cut.inner }
      | none => (readIndex? rest).map fun (index, attr) => ⟨[c], index, attr⟩

/-- Reads the parts of an indexed connection. -/
def readIndexed (cut : Indexed) : Except KeyError EdgeKey := do
  let key ← readEdge cut.inner
  let index := String.ofList cut.index
  match readBelow? indexBound index with
  | none => .error (.invalidIndex index)
  | some n =>
    match cut.attr with
    | none => .ok { key with index := some n }
    | some attr => return { key with index := some n, attr := ← readPath attr }

/-- The parts of an indexed connection, if the text has that form. -/
def indexed? : List Char → Option Indexed
  | '(' :: rest => cutIndexed? rest
  | _ => none

/-! ### Reading and writing -/

def parse (key : String) : Except KeyError Key := do
  let cs := trim key.toList
  if cs = [] then .error .empty
  else match indexed? cs with
    | some cut => return .edge (← readIndexed cut)
    | none =>
      if (Arrow.cut cs).2 ≠ [] then return .edge (← readEdge cs)
      else
        let (path, attr) := Attribute.splitReserved (← readPath cs)
        return .object path attr

/-- Reads a key that addresses a connection. -/
def parseEdge (key : String) : Except KeyError EdgeKey := do
  match ← parse key with
  | .edge k => .ok k
  | .object _ _ => .error (.notAConnection (trimmed key))

/-- The normal form of a key. -/
def render : Key → String
  | .object path attr => Dotted.join (path ++ attr)
  | .edge k =>
    match k.index with
    | none => k.sourceId ++ " " ++ k.arrow.token ++ " " ++ k.targetId
    | some n =>
      let base := indexedEdgeKey k.sourceId k.arrow k.targetId n
      if k.attr = [] then base else base ++ "." ++ Dotted.join k.attr

end Key

end BoxDiagram
