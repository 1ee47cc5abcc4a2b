import BoxDiagram.Picture.Element

/-!
# The writer at hand

The attributes of an element stand in its tag in order of their names, each between double quotes;
what is inside an element stands on lines of its own. In values and texts `&`, `<` and `>` are
escaped, and in values double quotes as well.
-/

namespace BoxDiagram

namespace Svg

/-- A character of a text. -/
def escapeInText (c : Char) : List Char :=
  if c = '&' then "&amp;".toList
  else if c = '<' then "&lt;".toList
  else if c = '>' then "&gt;".toList
  else [c]

/-- A character of a value. -/
def escapeInValue (c : Char) : List Char :=
  if c = '"' then "&quot;".toList else escapeInText c

def content (s : String) : String := String.ofList (s.toList.flatMap escapeInText)

def value (s : String) : String := String.ofList (s.toList.flatMap escapeInValue)

section Nodes

variable (value : String → String)

/-- The written form of the attributes of an element, a blank in front of each. -/
def attributes (m : Attributes) : String :=
  String.join (m.entries.map fun (name, v) => " " ++ name ++ "=\"" ++ value v ++ "\"")

mutual

/-- The written form of a node, with that of the values of attributes given. -/
def write : Element → String
  | .text s => content s
  | .tag name m children =>
    let opener := "<" ++ name ++ attributes value m
    if children.isEmpty then opener ++ "/>"
    else opener ++ ">" ++ writeAll children ++ "\n</" ++ name ++ ">"

/-- The written form of the nodes inside an element, each on a new line. -/
def writeAll : List Element → String
  | [] => ""
  | e :: rest => "\n" ++ write e ++ writeAll rest

end

/-- A writer, with the written form of the values of attributes given. -/
def writer : Writer where
  documentAttributes := [("xmlns", "http://www.w3.org/2000/svg")]
  value := value
  content := content
  write := write value

end Nodes

end Svg

/-- The writer at hand. -/
def Writer.svg : Writer := Svg.writer Svg.value

end BoxDiagram
