import BoxDiagram.Edit.Request
import BoxDiagram.Picture.Renderer

/-!
# Errors of a store
-/

namespace BoxDiagram

/-- Why a call to a store fails. -/
inductive StoreError where
  | incomplete (error : RequestError)
  | missingText
  | notFound (what id : String)
  | notCompiled (reason : String)
  | patchNotCompiled (reason text : String)
  | rejected (action reason : String)
  | notRendered (error : RenderError)
  | notWritten (path : String)
  | cancelled
  deriving DecidableEq, Repr

/-- The classes of errors that clients tell apart. -/
inductive ErrorClass where
  | validation
  | notFound
  | compilation
  | rejection
  | rendering
  | output
  | cancellation
  deriving DecidableEq, Repr

namespace RenderError

def errorClass : RenderError → ErrorClass
  | unsupportedFormat _ | unknownTheme _ => .validation
  | notCompiled _ => .compilation
  | noConverter _ | converterFailed _ _ => .rendering

end RenderError

namespace StoreError

def message : StoreError → String
  | incomplete error => error.message
  | missingText => "diagram content is required"
  | notFound what id => what ++ " not found: " ++ id
  | notCompiled reason => "failed to compile diagram: " ++ reason
  | patchNotCompiled reason _ =>
    "failed to compile diagram after removing connection: " ++ reason
  | rejected action reason => "failed to " ++ action ++ " element: " ++ reason
  | notRendered error => error.message
  | notWritten path => "failed to write " ++ path
  | cancelled => "operation cancelled"

def errorClass : StoreError → ErrorClass
  | incomplete _ | missingText => .validation
  | notFound _ _ => .notFound
  | notCompiled _ | patchNotCompiled _ _ => .compilation
  | rejected _ _ => .rejection
  | notRendered error => error.errorClass
  | notWritten _ => .output
  | cancelled => .cancellation

end StoreError

end BoxDiagram
