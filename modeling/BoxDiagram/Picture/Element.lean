import BoxDiagram.TextMap

/-!
# Elements: the markup of a picture

A picture is a tree of elements, each with attributes in order of their names, and of texts. How a
tree is written as text is left to a writer, which is not part of the picture.
-/

namespace BoxDiagram

/-- A node of the markup. -/
inductive Element where
  | text (content : String)
  | tag (name : String) (attributes : Attributes) (children : List Element)
  deriving Repr

namespace Element

instance : Inhabited Element := ⟨.text ""⟩

/-- An element with the given attributes, of which a later one wins. -/
def ofAttributes (name : String) (attributes : List (String × String)) (children : List Element) :
    Element :=
  .tag name (TextMap.ofList attributes) children

end Element

/-- What writes markup as text. -/
structure Writer where
  /-- The attributes that every document has. -/
  documentAttributes : List (String × String)
  /-- The written form of the value of an attribute, without the quotes around it. -/
  value : String → String
  /-- The written form of the content of a text. -/
  content : String → String
  /-- The written form of a node. -/
  write : Element → String

end BoxDiagram
