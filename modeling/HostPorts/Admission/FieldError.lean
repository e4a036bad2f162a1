import HostPorts.Text.Quoted

/-!
Rejected fields. A denial lists all of them in one message.
-/
namespace HostPorts

inductive FieldError.Cause where
  | invalid
  | forbidden
  | duplicate
  | notFound
  | internal
  deriving DecidableEq

def FieldError.Cause.word : FieldError.Cause → String
  | .invalid => "Invalid"
  | .forbidden => "Forbidden"
  | .duplicate => "Duplicate"
  | .notFound => "NotFound"
  | .internal => "Internal"

structure FieldError where
  /-- Such as `spec.start` or `metadata.annotations[x/y]`. -/
  path : String
  cause : FieldError.Cause
  /-- The offending value as text, nothing where the value does not matter. -/
  value : String
  detail : String
  deriving DecidableEq

namespace FieldError

def invalid (path value detail : String) : FieldError := ⟨path, .invalid, value, detail⟩

def forbidden (path detail : String) : FieldError := ⟨path, .forbidden, "", detail⟩

def duplicate (path value : String) : FieldError := ⟨path, .duplicate, value, "duplicate value"⟩

def notFound (path value : String) : FieldError := ⟨path, .notFound, value, "not found"⟩

def internal (path detail : String) : FieldError := ⟨path, .internal, "", detail⟩

def message (e : FieldError) : String :=
  e.path ++ ": " ++ e.cause.word ++ " value " ++ Text.quoted e.value ++ ": " ++ e.detail

def denial (errors : List FieldError) : String := String.intercalate "; " (errors.map message)

end FieldError
end HostPorts
