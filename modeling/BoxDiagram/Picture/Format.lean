import BoxDiagram.Text.Blank

/-!
# Picture formats
-/

namespace BoxDiagram

inductive PictureFormat where
  | svg
  | png
  | pdf
  deriving DecidableEq, Repr, Inhabited

namespace PictureFormat

/-- The ending of file names, which is also the name of the format. -/
def extension : PictureFormat → String
  | svg => "svg"
  | png => "png"
  | pdf => "pdf"

def mediaType : PictureFormat → String
  | svg => "image/svg+xml"
  | png => "image/png"
  | pdf => "application/pdf"

/-- Is the format other than text? -/
def isBinary : PictureFormat → Bool
  | svg => false
  | png | pdf => true

/-- The name of a format without blanks around it and with small letters. -/
def normalName (s : String) : String := String.ofList ((Text.trim s.toList).map Char.toLower)

/-- The format with a normal name; no name at all stands for the first one. -/
def ofNormalName? (name : String) : Option PictureFormat :=
  [("", svg), ("svg", svg), ("png", png), ("pdf", pdf)].lookup name

end PictureFormat

end BoxDiagram
