import BoxDiagram.Arrow

/-!
# Statements: the tree behind a diagram text

A diagram text is a list of statements. A statement declares an object or an attribute by its path,
or connects endpoints by arrows; it may carry a value and a block of further statements. A missing
block and an empty one are told apart, as are a missing value and an empty one.
-/

namespace BoxDiagram

/-- What a statement is about: a path of names, or a chain of endpoints with the arrows between
them. -/
inductive Head where
  | declaration (path : List String)
  | connection (endpoints : List (List String)) (arrows : List Arrow)
  deriving DecidableEq, Repr

/-- A statement. -/
structure Statement where
  head : Head
  value : Option String
  block : Option (List Statement)
  deriving Repr

namespace Statement

instance : Inhabited Statement := ⟨⟨.declaration [], none, none⟩⟩

mutual

def decideEq : (s t : Statement) → Decidable (s = t)
  | ⟨head, value, none⟩, ⟨head', value', none⟩ =>
    decidable_of_iff (head = head' ∧ value = value') (by simp)
  | ⟨head, value, some ss⟩, ⟨head', value', some ts⟩ =>
    have := decideEqAll ss ts
    decidable_of_iff (head = head' ∧ value = value' ∧ ss = ts) (by simp)
  | ⟨_, _, none⟩, ⟨_, _, some _⟩ => isFalse (by simp)
  | ⟨_, _, some _⟩, ⟨_, _, none⟩ => isFalse (by simp)

def decideEqAll : (ss ts : List Statement) → Decidable (ss = ts)
  | [], [] => isTrue rfl
  | s :: ss, t :: ts =>
    have := decideEq s t
    have := decideEqAll ss ts
    decidable_of_iff (s = t ∧ ss = ts) (by simp)
  | [], _ :: _ => isFalse (by simp)
  | _ :: _, [] => isFalse (by simp)

end

instance : DecidableEq Statement := decideEq

/-- A declaration with a value and without a block. -/
def assignment (path : List String) (value : String) : Statement :=
  ⟨.declaration path, some value, none⟩

/-- The statement with its block replaced. -/
def withBlock (s : Statement) (statements : List Statement) : Statement :=
  { s with block := some statements }

end Statement

end BoxDiagram
