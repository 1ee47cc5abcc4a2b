import BoxDiagram.Key
import BoxDiagram.Statement.Printer
import BoxDiagram.Statement.Quote
import BoxDiagram.Text.Lines

/-!
# Patches: removing connections from a text, line by line

A line declares a connection if it begins with its source, its arrow and its target, in one of four
spacings, and the target ends there. Removing such a line removes the block it opens as well, up to
the line where the braces outside quotes are balanced again. Either every line that declares the
connection is removed, or only the one with a given number.
-/

namespace BoxDiagram.Patch

open Text

/-- The spellings of a connection at the start of a line. -/
def spellings (source : String) (arrow : Arrow) (target : String) : List String :=
  [source ++ arrow.token ++ target, source ++ " " ++ arrow.token ++ target,
    source ++ arrow.token ++ " " ++ target, source ++ " " ++ arrow.token ++ " " ++ target]

/-- The spellings with any arrow. -/
def allSpellings (source target : String) : List String :=
  Arrow.all.flatMap fun arrow => spellings source arrow target

/-- A target ends at the end of the line, at a blank, and at the marks that can follow it. -/
def endsTarget : List Char → Bool
  | [] => true
  | c :: _ => isBlank c || c = ':' || c = ';' || c = '\x7b'

/-- A line without blanks around it begins with one of the spellings, and the target ends there. -/
def declares (spellings : List String) (line : List Char) : Bool :=
  spellings.any fun s => s.toList.isPrefixOf line && endsTarget (line.drop s.toList.length)

/-- What a character adds to the balance of braces. -/
def braceValue (q : QuoteState) (c : Char) : Int :=
  if q ≠ .outside then 0 else if c = '\x7b' then 1 else if c = '\x7d' then -1 else 0

/-- The number of braces that a line opens less the number of those that it closes, outside
quotes. -/
def balance : QuoteState → List Char → Int
  | _, [] => 0
  | q, c :: rest => braceValue q c + balance (q.next c) rest

/-- The lines that are kept. `seen` is the number of declaring lines so far, `depth` the number of
open braces of a removed one. -/
def kept (isDeclaring : List Char → Bool) (isChosen : Nat → Bool) (seen : Nat) (depth : Int) :
    List (List Char) → List (List Char)
  | [] => []
  | line :: rest =>
    if 0 < depth then kept isDeclaring isChosen seen (depth + balance .outside line) rest
    else if isDeclaring (trim line) then
      if isChosen seen then
        kept isDeclaring isChosen (seen + 1) (max 0 (balance .outside line)) rest
      else line :: kept isDeclaring isChosen (seen + 1) 0 rest
    else line :: kept isDeclaring isChosen seen 0 rest

/-- The text without the chosen declaring lines; none if there is no such line. -/
def strip (isDeclaring : List Char → Bool) (isChosen : Nat → Bool) (text : String) :
    Option String :=
  let ls := lines text.toList
  let left := kept isDeclaring isChosen 0 0 ls
  if left.length = ls.length then none
  else some (Statement.textOfLines (left.map String.ofList))

/-- The text without the lines that declare a connection. -/
def stripAll (text source : String) (arrow : Arrow) (target : String) : Option String :=
  strip (declares (spellings source arrow target)) (fun _ => true) text

/-- The text without the line with the given number among those that connect the endpoints by any
arrow. The lines are counted without a bound. -/
def stripNth (text source target : String) (n : Nat) : Option String :=
  strip (declares (allSpellings source target)) (· = n) text

/-! ### Counting in machine words

A program counts the lines in words. The addition that is meant is the one that wraps around: no text
has as many lines as there are words, and for all others the count is then the one without a bound
(`stripCounted_wrapping`). With an addition that checks for overflows, the greatest index has no result
(`stripCounted_checked`). -/

/-- The sum of two words, unless it overflows. -/
def checkedAdd (a b : UInt64) : Option UInt64 :=
  if a.toNat + b.toNat < UInt64.size then some (a + b) else none

/-- The sum of two words, taken around at an overflow. -/
def wrappingAdd (a b : UInt64) : Option UInt64 := some (a + b)

/-- The lines that are kept, as they are counted in words: the number of a declaring line, from one on,
is compared with one more than the index. There is no result if an addition has none. -/
def keptCounted (add : UInt64 → UInt64 → Option UInt64) (isDeclaring : List Char → Bool)
    (index seen : UInt64) (depth : Int) : List (List Char) → Option (List (List Char))
  | [] => some []
  | line :: rest =>
    if 0 < depth then
      keptCounted add isDeclaring index seen (depth + balance .outside line) rest
    else if isDeclaring (trim line) then do
      let number ← add seen 1
      let chosen ← add index 1
      if number = chosen then
        keptCounted add isDeclaring index number (max 0 (balance .outside line)) rest
      else return line :: (← keptCounted add isDeclaring index number 0 rest)
    else return line :: (← keptCounted add isDeclaring index seen 0 rest)

/-- The text without the line with an index, as it is counted in words. -/
def stripCounted (add : UInt64 → UInt64 → Option UInt64) (text source target : String)
    (index : UInt64) : Option (Option String) :=
  let ls := lines text.toList
  (keptCounted add (declares (allSpellings source target)) index 0 0 ls).map fun left =>
    if left.length = ls.length then none
    else some (Statement.textOfLines (left.map String.ofList))

/-! ### Keys -/

/-- The text without the connection that a key addresses. For an index the lines are counted without a
bound, which is the same as in words for every text of fewer lines (`stripKey_eq_stripCounted`). -/
def stripKey (text : String) (k : EdgeKey) : Option String :=
  match k.index with
  | some n => stripNth text k.sourceId k.targetId n
  | none => stripAll text k.sourceId k.arrow k.targetId

end BoxDiagram.Patch
