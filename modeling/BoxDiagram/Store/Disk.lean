/-!
# Disks: directories and files

A model of the directories and files that pictures are written to. A path is followed from the
output directory one part after the other; `..` leads to the parent of a directory. Writing a file
creates the directories on the way, even where it fails in the end. It fails if a part of the path
is a file, if the target is a directory or has no name, and if the name is too long for the
temporary file that stands in for the target while it is written.

Paths and the names in them have limits of their own. A path that no file system takes leads
nowhere, so no directory is created on it.
-/

namespace BoxDiagram

/-- A place, as the names on the way from the top. -/
abbrev Place := List String

/-- Directories and files. The top is always a directory. -/
structure Disk where
  directories : List Place
  files : List (Place × ByteArray)

namespace Disk

/-- The output directory. -/
def home : Place := ["output"]

/-- A disk with nothing but the output directory. -/
def fresh : Disk := ⟨[home], []⟩

variable (d : Disk)

def isDirectory (p : Place) : Bool := p = [] || d.directories.contains p

def isFile (p : Place) : Bool := d.files.any (·.1 = p)

def read? (p : Place) : Option ByteArray := d.files.lookup p

/-- The greatest number of bytes in a name of a file system. -/
def maxName : Nat := 255

/-- The greatest number of bytes in a path of a file system. -/
def maxPath : Nat := 4095

/-- The number of bytes in the path of the output directory. -/
def homeSize : Nat := 32

/-- The number of bytes that the name of a temporary file has beyond that of its target: a mark in
front, a dot and nineteen digits. -/
def temporaryExtra : Nat := 33

/-- Does a text hold the character that neither names nor paths can hold? -/
def hasNul (s : String) : Bool := s.toList.contains (Char.ofNat 0)

/-- A name that a directory can have. -/
def isName (name : String) : Bool := name.utf8ByteSize ≤ maxName && !hasNul name

/-- Can a path from the output directory have so many bytes? -/
def fitsPath (bytes : Nat) : Bool := homeSize + 1 + bytes ≤ maxPath

/-- A path that can be followed from the output directory. -/
def isPath (path : String) : Bool := fitsPath path.utf8ByteSize && !hasNul path

/-! ### Paths -/

/-- The parts of a path between its slashes. -/
def parts (path : String) : List String := (path.toList.splitOn '/').map String.ofList

/-- A part that leads nowhere else. -/
def isIdle (part : String) : Bool := part = "" || part = "."

/-- The parts without the idle ones at the end. -/
def withoutIdleEnd (ps : List String) : List String := (ps.reverse.dropWhile isIdle).reverse

/-- Does the path insist on a directory at its end? -/
def wantsDirectory (path : String) : Bool := (parts path).getLast?.any isIdle

/-- The name of the file that a path leads to, if it does not end with the way to a parent. -/
def fileName? (path : String) : Option String :=
  (withoutIdleEnd (parts path)).getLast?.filter (· ≠ "..")

/-- The parts of the path to the directory of a file. -/
def folder (path : String) : List String := withoutIdleEnd (withoutIdleEnd (parts path)).dropLast

/-- A path cut in front of the name of its file; there is no name if the path insists on a directory
at its end or ends with the way to a parent. -/
def cutName (path : String) : String × Option String :=
  match fileName? path with
  | none => (path, none)
  | some name =>
    if wantsDirectory path then (path, none)
    else (String.ofList (path.toList.take (path.length - name.length)), some name)

/-! ### Writing -/

/-- Follows the parts of a path from a directory and creates the directories that are missing. The
place is none if the way is blocked. -/
def descend (d : Disk) (p : Place) : List String → Disk × Option Place
  | [] => (d, some p)
  | part :: rest =>
    if isIdle part then descend d p rest
    else if part = ".." then descend d p.dropLast rest
    else if d.isDirectory (p ++ [part]) then descend d (p ++ [part]) rest
    else if d.isFile (p ++ [part]) || !isName part then (d, none)
    else descend { d with directories := d.directories ++ [p ++ [part]] } (p ++ [part]) rest

/-- The directory of a file, created where it is missing. -/
def openFolder (path : String) : Disk × Option Place :=
  let parts := folder path
  if isPath ("/".intercalate parts) then d.descend home parts else (d, none)

/-- Can the file that a path leads to be written into a directory? There must be room for the name
and the path of the temporary file as well. -/
def accepts (p : Place) (path name : String) : Bool :=
  let target := "/".intercalate (folder path ++ [name])
  isName name && name.utf8ByteSize + temporaryExtra ≤ maxName &&
    fitsPath path.utf8ByteSize && fitsPath (target.utf8ByteSize + temporaryExtra) &&
    !wantsDirectory path && !d.isDirectory (p ++ [name])

/-- Puts a file at a place. -/
def put (p : Place) (bytes : ByteArray) : Disk :=
  { d with files := (p, bytes) :: d.files.filter (·.1 ≠ p) }

/-- Writes a file; false if that is not possible. -/
def write (path : String) (bytes : ByteArray) : Bool × Disk :=
  match d.openFolder path, fileName? path with
  | (e, some p), some name =>
    if e.accepts p path name then (true, e.put (p ++ [name]) bytes) else (false, e)
  | (e, _), _ => (false, e)

end Disk

end BoxDiagram
