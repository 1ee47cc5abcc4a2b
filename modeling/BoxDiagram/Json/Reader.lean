import BoxDiagram.Json.Basic
import BoxDiagram.Text.Numeral

/-!
# JSON: reading

A text is first cut into tokens: the punctuation marks, and the values without parts as single
tokens. Then the values are put together; what is read of a value leaves a shorter list of tokens.
-/

namespace BoxDiagram.Json

/-- The parts of a JSON text. -/
inductive Token where
  | openList
  | closeList
  | openObject
  | closeObject
  | comma
  | colon
  | atom (value : Json)
  deriving Repr

/-! ### Tokens -/

/-- The value of a hexadecimal digit. -/
def hexValue? (c : Char) : Option Nat :=
  if c.isDigit then some (c.toNat - 48)
  else if 'a' ≤ c ∧ c ≤ 'f' then some (c.toNat - 87)
  else if 'A' ≤ c ∧ c ≤ 'F' then some (c.toNat - 55)
  else none

/-- The code unit that four hexadecimal digits write. -/
def unit? (a b c d : Char) : Option Nat := do
  return ((← hexValue? a) * 16 + (← hexValue? b)) * 256 + (← hexValue? c) * 16 + (← hexValue? d)

/-- The character of a pair of surrogate code units. -/
def surrogatePair? (high low : Nat) : Option Char :=
  if 0xD800 ≤ high ∧ high < 0xDC00 ∧ 0xDC00 ≤ low ∧ low < 0xE000 then
    some (Char.ofNat (0x10000 + (high - 0xD800) * 1024 + (low - 0xDC00)))
  else none

/-- The character of a code unit that is no surrogate. -/
def plainUnit? (unit : Nat) : Option Char :=
  if unit < 0xD800 ∨ 0xE000 ≤ unit then some (Char.ofNat unit) else none

/-- The character that follows a backslash in a short escape. -/
def escape? (c : Char) : Option Char :=
  [('"', '"'), ('\\', '\\'), ('/', '/'), ('b', '\x08'), ('f', '\x0c'), ('n', '\n'), ('r', '\r'),
    ('t', '\t')].lookup c

/-- The characters left after a part of a text, no more than the text has. -/
abbrev Left (cs : List Char) := { rest : List Char // rest.length ≤ cs.length }

/-- Puts a character in front of what was read from the end of a text. -/
def putBefore {cs ds : List Char} (c : Char) (h : ds.length ≤ cs.length)
    (r : List Char × Left ds) : List Char × Left cs :=
  (c :: r.1, ⟨r.2.1, Nat.le_trans r.2.2 h⟩)

/-- Reads a text up to the closing quote. -/
def readText : (cs : List Char) → Option (List Char × Left cs)
  | [] => none
  | '"' :: rest => some ([], ⟨rest, by simp only [List.length_cons]; omega⟩)
  | '\\' :: 'u' :: a :: b :: c :: d :: '\\' :: 'u' :: e :: f :: g :: h :: rest =>
    match unit? a b c d, unit? e f g h with
    | some high, some low =>
      match surrogatePair? high low with
      | some x => (readText rest).map (putBefore x (by simp only [List.length_cons]; omega))
      | none =>
        match plainUnit? high with
        | some x => (readText ('\\' :: 'u' :: e :: f :: g :: h :: rest)).map
            (putBefore x (by simp only [List.length_cons]; omega))
        | none => none
    | _, _ => none
  | '\\' :: 'u' :: a :: b :: c :: d :: rest =>
    match (unit? a b c d).bind plainUnit? with
    | some x => (readText rest).map (putBefore x (by simp only [List.length_cons]; omega))
    | none => none
  | '\\' :: c :: rest =>
    match escape? c with
    | some x => (readText rest).map (putBefore x (by simp only [List.length_cons]; omega))
    | none => none
  | c :: rest =>
    if c.toNat < 32 then none
    else (readText rest).map (putBefore c (by simp only [List.length_cons]; omega))

/-- The characters of number literals and of the words `true`, `false` and `null`. -/
def isLiteralChar (c : Char) : Bool := c.isAlphanum || c = '+' || c = '-' || c = '.'

/-- The value that a literal without quotes writes. -/
def literal? (cs : List Char) : Option Json :=
  let digits := match cs with
    | '-' :: rest => rest
    | rest => rest
  let word := String.ofList cs
  if word = "null" then some .null
  else if word = "true" then some (.bool true)
  else if word = "false" then some (.bool false)
  else if digits ≠ [] ∧ digits.all Char.isDigit then
    let n : Int := Text.digitsValue digits
    some (.integer (if digits = cs then n else -n))
  else if (digits.head?.map Char.isDigit).getD false ∧ (Text.Numeral.read? word).isSome then
    some (.decimal word)
  else none

/-- The mark that a character stands for. -/
def mark? (c : Char) : Option Token :=
  match c with
  | '[' => some .openList
  | ']' => some .closeList
  | '\x7b' => some .openObject
  | '\x7d' => some .closeObject
  | ',' => some .comma
  | ':' => some .colon
  | _ => none

/-- The characters between tokens. -/
def isGap (c : Char) : Bool := c = ' ' || c = '\t' || c = '\n' || c = '\r'

def tokens? (cs : List Char) : Option (List Token) :=
  match cs with
  | [] => some []
  | '"' :: rest =>
    match readText rest with
    | some (value, ⟨left, _⟩) =>
      (tokens? left).map (.atom (.text (String.ofList value)) :: ·)
    | none => none
  | c :: rest =>
    if isGap c then tokens? rest
    else match mark? c with
      | some token => (tokens? rest).map (token :: ·)
      | none =>
        match literal? (c :: rest.takeWhile isLiteralChar) with
        | some value => (tokens? (rest.dropWhile isLiteralChar)).map (.atom value :: ·)
        | none => none
termination_by cs.length
decreasing_by
  · simp only [List.length_cons]; omega
  · simp only [List.length_cons]; omega
  · simp only [List.length_cons]; omega
  · have := (List.dropWhile_sublist isLiteralChar (l := rest)).length_le
    simp only [List.length_cons]; omega

/-! ### Values -/

/-- The tokens left after a value, fewer than before. -/
abbrev Rest (ts : List Token) := { rest : List Token // rest.length < ts.length }

/-- What is left of the end of a list of tokens is left of the list. -/
def Rest.within {ts us : List Token} (r : Rest us) (h : us.length ≤ ts.length) : Rest ts :=
  ⟨r.1, Nat.lt_of_lt_of_le r.2 h⟩

mutual

def readValue (ts : List Token) : Option (Json × Rest ts) :=
  match ts with
  | .atom value :: rest => some (value, ⟨rest, by simp only [List.length_cons]; omega⟩)
  | .openList :: .closeList :: rest =>
    some (.list [], ⟨rest, by simp only [List.length_cons]; omega⟩)
  | .openObject :: .closeObject :: rest =>
    some (.object [], ⟨rest, by simp only [List.length_cons]; omega⟩)
  | .openList :: rest =>
    (readItems rest).map fun (values, r) =>
      (.list values, r.within (by simp only [List.length_cons]; omega))
  | .openObject :: rest =>
    (readFields rest).map fun (fields, r) =>
      (.object fields, r.within (by simp only [List.length_cons]; omega))
  | _ => none
termination_by (ts.length, 0)

/-- Reads the items of a list and the bracket that closes it. -/
def readItems (ts : List Token) : Option (List Json × Rest ts) :=
  match readValue ts with
  | some (value, ⟨.closeList :: rest, h⟩) =>
    some ([value], ⟨rest, by simp only [List.length_cons] at h; omega⟩)
  | some (value, ⟨.comma :: rest, h⟩) =>
    (readItems rest).map fun (values, r) =>
      (value :: values, r.within (by simp only [List.length_cons] at h; omega))
  | _ => none
termination_by (ts.length, 1)
decreasing_by
  · exact Prod.Lex.right _ (by omega)
  · simp only [List.length_cons] at h; exact Prod.Lex.left _ _ (by omega)

/-- Reads the fields of an object and the brace that closes it. -/
def readFields (ts : List Token) : Option (List (String × Json) × Rest ts) :=
  match ts with
  | .atom (.text name) :: .colon :: after =>
    match readValue after with
    | some (value, ⟨.closeObject :: rest, h⟩) =>
      some ([(name, value)], ⟨rest, by simp only [List.length_cons] at h ⊢; omega⟩)
    | some (value, ⟨.comma :: rest, h⟩) =>
      (readFields rest).map fun (fields, r) =>
        ((name, value) :: fields, r.within (by simp only [List.length_cons] at h ⊢; omega))
    | _ => none
  | _ => none
termination_by (ts.length, 1)
decreasing_by
  · exact Prod.Lex.left _ _ (by simp only [List.length_cons]; omega)
  · simp only [List.length_cons] at h
    exact Prod.Lex.left _ _ (by simp only [List.length_cons]; omega)

end

/-- Reads the value that makes up the whole text. -/
def read? (s : String) : Option Json := do
  let ts ← tokens? s.toList
  match readValue ts with
  | some (value, ⟨[], _⟩) => some value
  | _ => none

end BoxDiagram.Json
