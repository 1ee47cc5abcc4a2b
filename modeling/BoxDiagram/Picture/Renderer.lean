import BoxDiagram.Graph.Compile
import BoxDiagram.Picture.Format
import BoxDiagram.Picture.Paint

/-!
# Rendering: from text to the bytes of a picture

A picture is drawn as SVG. The other formats are made from that by converters, programs outside of
this one; the first that is installed does the work.
-/

namespace BoxDiagram

/-- What can go wrong with a picture. -/
inductive RenderError where
  | unsupportedFormat (name : String)
  | unknownTheme (theme : Int)
  | notCompiled (error : CompileError)
  | noConverter (format : PictureFormat)
  | converterFailed (tool reason : String)
  deriving DecidableEq, Repr

namespace RenderError

def message : RenderError → String
  | unsupportedFormat name =>
    "unsupported export format '" ++ name ++ "' (expected svg, png or pdf)"
  | unknownTheme theme => "unknown theme id " ++ toString theme
  | notCompiled error => "failed to compile diagram: " ++ error.message
  | noConverter format =>
    "no converter available for " ++ format.extension ++
      " (install rsvg-convert or ImageMagick)"
  | converterFailed tool reason => tool ++ " failed: " ++ reason

end RenderError

namespace PictureFormat

/-- Reads the name of a format. -/
def parse (s : String) : Except RenderError PictureFormat :=
  match ofNormalName? (normalName s) with
  | some format => .ok format
  | none => .error (.unsupportedFormat (normalName s))

end PictureFormat

namespace Palette

/-- The palette of a theme, which must be known. -/
def ofTheme (theme : Int) : Except RenderError Palette :=
  match ofTheme? theme with
  | some palette => .ok palette
  | none => .error (.unknownTheme theme)

end Palette

/-- A converter: what it makes of a picture, or why it fails; nothing if it is not installed. -/
structure Converter where
  tool : String
  run : ByteArray → PictureFormat → Option (Except String ByteArray)

namespace Converter

/-- A converter that is not installed. -/
def absent (tool : String) : Converter := ⟨tool, fun _ _ => none⟩

/-- The converters that are looked for, in order. -/
def preferred : List Converter := [absent "rsvg-convert", absent "convert"]

/-- Has the first installed converter make a format other than SVG. -/
def convertAll (svg : ByteArray) (format : PictureFormat) :
    List Converter → Except RenderError ByteArray
  | [] => .error (.noConverter format)
  | c :: rest =>
    match c.run svg format with
    | none => convertAll svg format rest
    | some (.ok bytes) => .ok bytes
    | some (.error reason) => .error (.converterFailed c.tool reason)

/-- Brings a picture into a format; SVG stays as it is. -/
def convert (converters : List Converter) (svg : ByteArray) (format : PictureFormat) :
    Except RenderError ByteArray :=
  if format = .svg then .ok svg else convertAll svg format converters

end Converter

/-- The bytes of the picture of a text. The theme is looked at before the text. -/
def renderPicture (w : Writer) (converters : List Converter) (text : String) (format : PictureFormat)
    (theme : Int) : Except RenderError ByteArray := do
  let palette ← Palette.ofTheme theme
  let g ← (compile text).mapError .notCompiled
  Converter.convert converters (g.draw w palette).toUTF8 format

end BoxDiagram
