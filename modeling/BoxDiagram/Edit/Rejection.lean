import BoxDiagram.Key

/-!
# Rejections: why an edit is not carried out

An edit is refused for what it asks for. Where it has found the place that it is to write and then
does not find it any more, the editor itself is at fault.
-/

namespace BoxDiagram

/-- Why an edit is refused, or what the editor has lost on the way. -/
inductive Rejection where
  | noBoard (board : List String)
  | invalidKey (error : KeyError)
  | invalidAttribute (error : AttributeError)
  | noObject (id : String)
  | noConnection (key : String)
  | notAnObject (key : String)
  | connectionForObject (key : String)
  | attributeCreated (key : String)
  | producedTwice (id : String)
  | alreadyExists (id : String)
  | ownSubtree (old new : String)
  | connectionRenamed (key : String)
  | reservedName (name : String)
  | severalSegments (name : String)
  | objectVanished (id : String)
  | edgeVanished (position : Nat)
  deriving DecidableEq, Repr

namespace Rejection

def message : Rejection → String
  | noBoard board => "board not found: " ++ Dotted.join board
  | invalidKey error => error.message
  | invalidAttribute error => error.message
  | noObject id => "object '" ++ id ++ "' does not exist"
  | noConnection key => "connection '" ++ key ++ "' does not exist"
  | notAnObject key => "'" ++ key ++ "' does not name an object"
  | connectionForObject key => "'" ++ key ++ "' is a connection, expected an object"
  | attributeCreated key => "cannot create attribute '" ++ key ++ "', use set instead"
  | producedTwice id => "'" ++ id ++ "' would be produced twice"
  | alreadyExists id => "object '" ++ id ++ "' already exists"
  | ownSubtree old new => "cannot move '" ++ old ++ "' into its own subtree '" ++ new ++ "'"
  | connectionRenamed key => "cannot rename connection '" ++ key ++ "'"
  | reservedName name => "'" ++ name ++ "' is a reserved keyword"
  | severalSegments name => "new name '" ++ name ++ "' must be a single segment"
  | objectVanished id => "object '" ++ id ++ "' vanished"
  | edgeVanished position => "edge " ++ toString position ++ " vanished"

/-- Is the editor at fault? -/
def isFault : Rejection → Bool
  | objectVanished _ | edgeVanished _ => true
  | _ => false

end Rejection

end BoxDiagram
