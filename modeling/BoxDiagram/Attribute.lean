import BoxDiagram.Dotted
import BoxDiagram.Text.Numeral

/-!
# Attributes: names and values

A segment of a path that is a reserved keyword starts an attribute path. Such a path names an
attribute if it is a reserved keyword other than `style`, or `style` followed by a style property.
Some attributes have typed values: shapes, directions, natural numbers of 32 bits, booleans, and
the opacity, a number between 0 and 1. The others take any text.
-/

namespace BoxDiagram

/-- What can be wrong with the name or the value of an attribute. -/
inductive AttributeError where
  | missingName
  | styleAlone
  | unknownStyle (property : String)
  | unknownName (path : List String)
  | notOnConnection (name : String)
  | unknownShape (value : String)
  | invalidDirection (value : String)
  | notNatural (name value : String)
  | notBoolean (name value : String)
  | notFraction (name value : String)
  deriving DecidableEq, Repr

namespace AttributeError

def message : AttributeError → String
  | missingName => "missing attribute name"
  | styleAlone => "style requires a property (e.g. style.fill)"
  | unknownStyle property => "unknown style property '" ++ property ++ "'"
  | unknownName path => "unknown attribute '" ++ Dotted.join path ++ "'"
  | notOnConnection name => "attribute '" ++ name ++ "' is not valid on a connection"
  | unknownShape value => "unknown shape '" ++ value ++ "'"
  | invalidDirection value =>
    "invalid direction '" ++ value ++ "' (expected up, down, left or right)"
  | notNatural name value =>
    name ++ " expects a non-negative integer, got '" ++ value ++ "'"
  | notBoolean name value => name ++ " expects true or false, got '" ++ value ++ "'"
  | notFraction name value =>
    name ++ " expects a number between 0 and 1, got '" ++ value ++ "'"

end AttributeError

namespace Attribute

/-- The segments that address an attribute and not an object. -/
def reserved : List String :=
  ["label", "shape", "icon", "tooltip", "link", "near", "width", "height", "direction", "style"]

def styleProperties : List String :=
  ["fill", "stroke", "stroke-width", "stroke-dash", "opacity", "font-color", "font-size", "bold",
    "italic", "shadow", "border-radius", "animated", "3d", "multiple"]

def shapes : List String :=
  ["rectangle", "square", "page", "parallelogram", "document", "cylinder", "queue", "package",
    "step", "callout", "stored_data", "person", "diamond", "oval", "circle", "hexagon", "cloud",
    "text", "code", "class", "sql_table", "image", "sequence_diagram"]

/-- The shape of an object that names none. -/
def defaultShape : String := "rectangle"

/-- The directions in which a board can grow. -/
def directions : List String := ["up", "down", "left", "right"]

/-- The attributes whose values are natural numbers. -/
def naturalNames : List String :=
  ["width", "height", "style.stroke-width", "style.font-size", "style.border-radius"]

/-- The attributes whose values are booleans. -/
def booleanNames : List String :=
  ["style.bold", "style.italic", "style.shadow", "style.animated", "style.3d", "style.multiple"]

/-- The attributes outside `style` that a connection can carry. -/
def connectionNames : List String := ["label", "tooltip", "link"]

/-- Does the segment address an attribute? -/
def isReserved (segment : String) : Bool := reserved.contains segment

/-- The position of the first reserved segment of a path. -/
def firstReserved? (path : List String) : Option Nat := path.findIdx? isReserved

/-- A path cut before its first reserved segment: the object part and the attribute part. -/
def splitReserved (path : List String) : List String × List String :=
  (path.takeWhile (!isReserved ·), path.dropWhile (!isReserved ·))

/-- The name that an attribute path stands for. -/
def nameOf (path : List String) : Except AttributeError String :=
  match path with
  | [] => .error .missingName
  | [single] =>
    if single = "style" then .error .styleAlone
    else if isReserved single then .ok single
    else .error (.unknownName path)
  | [style, property] =>
    if style = "style" then
      if styleProperties.contains property then .ok ("style." ++ property)
      else .error (.unknownStyle property)
    else .error (.unknownName path)
  | _ => .error (.unknownName path)

/-- A connection can carry the attribute: it is one of a few names or a style property. -/
def allowedOnConnection (name : String) : Bool :=
  connectionNames.contains name || "style.".toList.isPrefixOf name.toList

/-- Refuses the names that a connection cannot carry. -/
def checkConnectionName (name : String) : Except AttributeError Unit :=
  if allowedOnConnection name then .ok () else .error (.notOnConnection name)

/-- A number between 0 and 1, after rounding to the nearest double. -/
def isFraction (value : String) : Bool :=
  match Text.Numeral.read? value with
  | some n => 0 ≤ n.toFloat && n.toFloat ≤ 1
  | none => false

/-- Refuses the values that an attribute with a typed value cannot have. -/
def checkValue (name value : String) : Except AttributeError Unit :=
  if name = "shape" then
    if shapes.contains value then .ok () else .error (.unknownShape value)
  else if name = "direction" then
    if directions.contains value then .ok () else .error (.invalidDirection value)
  else if naturalNames.contains name then
    if (Text.readBelow? 0x100000000 value).isSome then .ok () else .error (.notNatural name value)
  else if booleanNames.contains name then
    if value = "true" ∨ value = "false" then .ok () else .error (.notBoolean name value)
  else if name = "style.opacity" then
    if isFraction value then .ok () else .error (.notFraction name value)
  else .ok ()

theorem splitReserved_append (path : List String) :
    (splitReserved path).1 ++ (splitReserved path).2 = path := by
  simp [splitReserved]

end Attribute

end BoxDiagram
