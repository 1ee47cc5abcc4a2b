import BoxDiagram.Statement.Entry
import BoxDiagram.Text.Lines

/-!
# Reading diagram texts

The pieces of all lines are read one after the other. A reader holds the statements that are
complete, and a frame for each block that is open: the statement that opened it, its line, and the
statements of the block so far. At the end no block may be open.
-/

namespace BoxDiagram

structure Frame where
  opener : Statement
  line : Nat
  statements : List Statement
  deriving DecidableEq, Repr

/-- How far a text has been read: the complete statements, and the open blocks from the innermost
outwards. -/
structure Reading where
  statements : List Statement
  frames : List Frame
  deriving DecidableEq, Repr

namespace Reading

/-- Nothing has been read. -/
def start : Reading := ⟨[], []⟩

/-- Adds a complete statement to the innermost open block. -/
def add (r : Reading) (s : Statement) : Reading :=
  match r.frames with
  | [] => { r with statements := r.statements ++ [s] }
  | f :: outer => { r with frames := { f with statements := f.statements ++ [s] } :: outer }

/-- Reads one piece of a line. -/
def step (line : Nat) (r : Reading) : Piece → Except SyntaxCause Reading
  | .close =>
    match r.frames with
    | [] => .error .unexpectedClose
    | f :: outer => .ok (add { r with frames := outer } (f.opener.withBlock f.statements))
  | .text cs => do
    let e ← Entry.read cs
    if e.marker = .opening then return { r with frames := ⟨e.statement, line, []⟩ :: r.frames }
    else return r.add e.statement

/-- Reads one line with its number. -/
def readLine (r : Reading) (line : List Char × Nat) : Except SyntaxError Reading :=
  ((Piece.ofLine line.1).bind fun pieces => pieces.foldlM (step line.2) r).mapError (⟨line.2, ·⟩)

/-- Reads lines, the first of which has the given number. -/
def readLines (r : Reading) (lines : List (List Char)) (first : Nat) : Except SyntaxError Reading :=
  (lines.zipIdx first).foldlM readLine r

/-- The statements, once every block is closed. -/
def finish (r : Reading) : Except SyntaxError (List Statement) :=
  match r.frames with
  | [] => .ok r.statements
  | f :: _ => .error ⟨f.line, .unclosedBlock⟩

end Reading

namespace Statement

/-- Reads the statements of a diagram text. -/
def parse (text : String) : Except SyntaxError (List Statement) := do
  (← Reading.start.readLines (Text.lines text.toList) 1).finish

end Statement

end BoxDiagram
