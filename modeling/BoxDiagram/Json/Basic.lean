/-!
# JSON: values and their text

The messages between a client and the tools are JSON values. They are written on one line without
blanks; control characters and the characters that other readers take for line ends are escaped.
-/

namespace BoxDiagram

/-- A JSON value. A number that is no integer keeps its literal. -/
inductive Json where
  | null
  | bool (value : Bool)
  | integer (value : Int)
  | decimal (literal : String)
  | text (value : String)
  | list (items : List Json)
  | object (fields : List (String × Json))
  deriving Repr, Inhabited

namespace Json

/-! ### Building values -/

def ofNat (n : Nat) : Json := .integer n

/-- A text, or null if there is none. -/
def ofText? : Option String → Json
  | some s => .text s
  | none => .null

def ofTexts (ss : List String) : Json := .list (ss.map .text)

/-! ### Looking into values -/

/-- The field of an object; null and other values have none. -/
def get? (name : String) : Json → Option Json
  | .object fields => fields.lookup name
  | _ => none

/-- The text of a text value. -/
def text? : Json → Option String
  | .text s => some s
  | _ => none

/-- The items of a list value. -/
def list? : Json → Option (List Json)
  | .list items => some items
  | _ => none

/-! ### Writing -/

/-- The four hexadecimal digits of a code unit. -/
def hexDigits (n : Nat) : String :=
  let ds := Nat.toDigits 16 n
  String.ofList (List.replicate (4 - ds.length) '0' ++ ds)

/-- One character inside a quoted text. -/
def renderChar (c : Char) : String :=
  if c = '"' then "\\\""
  else if c = '\\' then "\\\\"
  else if c = '\n' then "\\n"
  else if c = '\t' then "\\t"
  else if c.toNat < 32 ∨ c.toNat = 0x7F ∨ c.toNat = 0x85 ∨ c.toNat = 0x2028 ∨ c.toNat = 0x2029 then
    "\\u" ++ hexDigits c.toNat
  else String.singleton c

def renderText (s : String) : String :=
  "\"" ++ (s.toList.foldl (fun out c => out ++ renderChar c) "") ++ "\""

mutual

def render : Json → String
  | .null => "null"
  | .bool value => if value then "true" else "false"
  | .integer value => toString value
  | .decimal literal => literal
  | .text value => renderText value
  | .list items => "[" ++ ",".intercalate (renderItems items) ++ "]"
  | .object fields => "\x7b" ++ ",".intercalate (renderFields fields) ++ "\x7d"

/-- The texts of the items of a list. -/
def renderItems : List Json → List String
  | [] => []
  | item :: rest => render item :: renderItems rest

/-- The texts of the fields of an object. -/
def renderFields : List (String × Json) → List String
  | [] => []
  | (name, value) :: rest => (renderText name ++ ":" ++ render value) :: renderFields rest

end

end Json

end BoxDiagram
