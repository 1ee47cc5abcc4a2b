import BoxDiagram.Store.Basic

/-!
# Saving: pictures in files

A picture is written to the path that is asked for, or else to a new file in the output directory,
named after the diagram and a stamp that tells such files apart.
-/

namespace BoxDiagram

/-- A place to write files to: the text in front of the names of new files, a stamp for them, and
the way to write a file, which answers whether that was possible. -/
structure Output (m : Type → Type) where
  directory : String
  stamp : m String
  write : String → ByteArray → m Bool

namespace Output

variable {m : Type → Type} [Monad m] (out : Output m)

def newPath (stem : String) (format : PictureFormat) : m String := do
  return out.directory ++ stem ++ "_" ++ (← out.stamp) ++ "." ++ format.extension

/-- Writes a picture to a path, or to a new file with the given stem. -/
def writePicture (stem : String) (format : PictureFormat) (path : Option String)
    (picture : Except StoreError ByteArray) : m (Except StoreError (String × ByteArray)) := do
  match picture with
  | .error e => return .error e
  | .ok bytes =>
    let path ← match path with
      | some path => pure path
      | none => out.newPath stem format
    if ← out.write path bytes then return .ok (path, bytes) else return .error (.notWritten path)

end Output

namespace Store

variable {m : Type → Type} [Monad m] (out : Output m) (b : Backend) (isCancelled : Bool)

/-- Writes the picture of a diagram to a file. -/
def save (s : Store) (id : String) (format : PictureFormat) (theme : Int) (path : Option String) :
    m (Except StoreError (String × ByteArray)) :=
  out.writePicture (Text.trimmed id) format path (s.exportPicture b isCancelled id format theme)

/-- Writes the picture of a text to a file. -/
def renderToFile (text : String) (format : PictureFormat) (theme : Int) (path : Option String) :
    m (Except StoreError (String × ByteArray)) :=
  out.writePicture "diagram" format path (render b isCancelled text format theme)

end Store

end BoxDiagram
