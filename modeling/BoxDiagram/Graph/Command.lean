import BoxDiagram.Graph.Basic

/-!
# Commands: what the statements of a diagram ask for

Statements come down to a list of commands: declare an object, write an attribute, connect objects.
Names inside blocks become absolute ids on the way, and all that can be wrong with a tree of
statements shows here; running commands on a graph cannot fail.
-/

namespace BoxDiagram

/-- What can be wrong with a statement. -/
inductive SemanticCause where
  | styleAlone
  | connectionInStyle
  | attributeBlock
  | invalid (error : AttributeError)
  | missingValue (name : String)
  | nestedConnection
  | attributeEndpoint
  deriving DecidableEq, Repr

namespace SemanticCause

def message : SemanticCause → String
  | styleAlone => "style requires a block or a property"
  | connectionInStyle => "connections are not allowed inside style"
  | attributeBlock => "attributes cannot open a block"
  | invalid error => error.message
  | missingValue name => name ++ " requires a value"
  | nestedConnection => "connections cannot be nested inside a connection"
  | attributeEndpoint => "connection endpoints cannot be attributes"

end SemanticCause

/-- A cause with the key of the statement it concerns. -/
structure SemanticError where
  key : String
  cause : SemanticCause
  deriving DecidableEq, Repr

namespace SemanticError

def message (e : SemanticError) : String := e.key ++ ": " ++ e.cause.message

end SemanticError

inductive Command where
  | declare (id : String) (label : Option String)
  | assign (target : Option String) (name value : String)
  | connect (ids : List String) (arrows : List Arrow) (label : Option String)
      (settings : List (String × String))
  deriving DecidableEq, Repr

namespace Statement

/-- The id of a path inside the block of an object, or at the top if there is none. -/
def absolute (scope : Option String) (path : List String) : String :=
  match scope, path with
  | none, _ => Dotted.join path
  | some id, [] => id
  | some id, _ => id ++ "." ++ Dotted.join path

/-- The name and the value that an attribute path and a value stand for; `key` is reported if they
stand for none. -/
def setting (key : String) (path : List String) (value : Option String) :
    Except SemanticError (String × String) := do
  let name ← (Attribute.nameOf path).mapError (⟨key, .invalid ·⟩)
  match value with
  | none => .error ⟨key, .missingValue name⟩
  | some v =>
    (Attribute.checkValue name v).mapError (⟨key, .invalid ·⟩)
    return (name, v)

/-- The same for an attribute of a connection. -/
def connectionSetting (path : List String) (value : Option String) :
    Except SemanticError (String × String) := do
  let key := Dotted.join path
  let name ← (Attribute.nameOf path).mapError (⟨key, .invalid ·⟩)
  (Attribute.checkConnectionName name).mapError (⟨key, .invalid ·⟩)
  setting key path value

/-! ### Attributes of objects and of the board -/

/-- A setting in the block of `style`; `key` belongs to the statement that holds the block. -/
def styleSetting (key : String) (s : Statement) : Except SemanticError (String × String) :=
  match s.head with
  | .connection _ _ => .error ⟨key, .connectionInStyle⟩
  | .declaration path => setting (Dotted.join path) ("style" :: path) s.value

/-- The settings of a declaration whose path ends in the given attribute path. -/
def settings (path attr : List String) (value : Option String) (block : Option (List Statement)) :
    Except SemanticError (List (String × String)) :=
  let key := Dotted.join path
  if attr = ["style"] ∧ value = none then
    match block with
    | none => .error ⟨key, .styleAlone⟩
    | some entries => entries.mapM (styleSetting key)
  else if block.getD [] ≠ [] then .error ⟨key, .attributeBlock⟩
  else do return [← setting key attr value]

/-! ### Attributes of connections -/

mutual

/-- The settings of a statement in the block of a connection, below an outer attribute path. -/
def connectionSettings (outer : List String) :
    Statement → Except SemanticError (List (String × String))
  | ⟨.connection endpoints _, _, _⟩ =>
    if outer = [] then
      .error ⟨" -> ".intercalate (endpoints.map Dotted.join), .nestedConnection⟩
    else .error ⟨Dotted.join outer, .connectionInStyle⟩
  | ⟨.declaration path, value, block⟩ =>
    if outer ++ path = ["style"] ∧ value = none then connectionSettingsBlock ["style"] block
    else do return [← connectionSetting (outer ++ path) value]

/-- The settings of a block, which may be missing. -/
def connectionSettingsBlock (outer : List String) :
    Option (List Statement) → Except SemanticError (List (String × String))
  | none => .ok []
  | some ss => connectionSettingsAll outer ss

/-- The settings of statements one after the other. -/
def connectionSettingsAll (outer : List String) :
    List Statement → Except SemanticError (List (String × String))
  | [] => .ok []
  | s :: rest => do return (← connectionSettings outer s) ++ (← connectionSettingsAll outer rest)

end

/-! ### All statements -/

mutual

/-- The commands of a statement inside the block of an object, or at the top. -/
def commands (scope : Option String) : Statement → Except SemanticError (List Command)
  | ⟨.declaration path, value, block⟩ =>
    match Attribute.splitReserved path with
    | (_, []) => do
      let id := absolute scope path
      return .declare id value :: (← commandsBlock (some id) block)
    | (before, attr) => do
      let target := if before = [] then scope else some (absolute scope before)
      return (← settings path attr value block).map fun (name, v) => .assign target name v
  | ⟨.connection endpoints arrows, value, block⟩ => do
    let ids := endpoints.map (absolute scope)
    match ids.find? fun id => (Dotted.segments id).any Attribute.isReserved with
    | some id => .error ⟨id, .attributeEndpoint⟩
    | none => return [.connect ids arrows value (← connectionSettingsBlock [] block)]

/-- The commands of a block, which may be missing. -/
def commandsBlock (scope : Option String) :
    Option (List Statement) → Except SemanticError (List Command)
  | none => .ok []
  | some ss => commandsAll scope ss

/-- The commands of statements one after the other. -/
def commandsAll (scope : Option String) : List Statement → Except SemanticError (List Command)
  | [] => .ok []
  | s :: rest => do return (← commands scope s) ++ (← commandsAll scope rest)

end

end Statement

namespace Graph

/-- The edges of a chain of ids, all with the same attributes. -/
def chain (attributes : Attributes) : List String → List Arrow → List Edge
  | source :: target :: rest, arrow :: arrows =>
    ⟨source, target, arrow, attributes⟩ :: chain attributes (target :: rest) arrows
  | _, _ => []

/-- The attributes of a connection: its label and its settings, of which a later one wins. -/
def connectionAttributes (label : Option String) (settings : List (String × String)) : Attributes :=
  TextMap.ofList ((label.map ("label", ·)).toList ++ settings)

def run (g : Graph) : Command → Graph
  | .declare id none => g.ensure id
  | .declare id (some label) => (g.ensure id).assignObject id "label" (some label)
  | .assign none name value => g.assignBoard name (some value)
  | .assign (some id) name value => (g.ensure id).assignObject id name (some value)
  | .connect ids arrows label settings =>
    let h := ids.foldl ensure g
    { h with edges := h.edges ++ chain (connectionAttributes label settings) ids arrows }

/-- The graph that statements describe. -/
def lower (statements : List Statement) : Except SemanticError Graph := do
  let commands ← Statement.commandsAll none statements
  return (commands.foldl run ∅).withStatements (some statements)

end Graph

end BoxDiagram
