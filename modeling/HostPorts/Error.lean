import HostPorts.Kind
import HostPorts.Text.Quoted

/-!
Why an operation failed, with the one wording of each cause. Only a conflict is told apart by the
retry policy (`ControllerError.isConflict`).
-/
namespace HostPorts

/-- What an API server's client reports. The last two stand for a request that was never sent. -/
inductive ApiFailure where
  | refused (status message reason : String) (code : Nat)
  | unreadable
  | unreachable
  | unnamed
  | unfitPath
  deriving DecidableEq

def ApiFailure.message : ApiFailure → String
  | .refused status message reason code =>
    "ApiError: " ++ message ++ ": " ++ reason ++ " (ErrorResponse \x7b status: " ++
      Text.quoted status ++ ", message: " ++ Text.quoted message ++ ", reason: " ++
      Text.quoted reason ++ ", code: " ++ toString code ++ " \x7d)"
  | .unreadable => "Error deserializing response: unexpected value"
  | .unreachable => "ServiceError: no response"
  | .unnamed =>
    "Failed to build request: failed to validate request: A non-empty name is required"
  | .unfitPath => "Failed to build request: failed to build request: invalid uri character"

inductive StoreError where
  | notFound (kind : Kind) (name : String)
  | conflict (kind : Kind) (name : String)
  | alreadyExists (kind : Kind) (name : String)
  | api (failure : ApiFailure)
  | serialization
  | invalidObject (detail : String)
  deriving DecidableEq

namespace StoreError

def message : StoreError → String
  | .notFound kind name => kind.name ++ " " ++ name ++ " not found"
  | .conflict kind name => "conflict writing " ++ kind.name ++ " " ++ name ++ ": object was modified"
  | .alreadyExists kind name => kind.name ++ " " ++ name ++ " already exists"
  | .api failure => "Kubernetes error: " ++ failure.message
  | .serialization => "Serialization error: unexpected value"
  | .invalidObject detail => "Invalid object: " ++ detail

def isNotFound : StoreError → Bool
  | .notFound .. => true
  | _ => false

def isConflict : StoreError → Bool
  | .conflict .. => true
  | _ => false

def isAlreadyExists : StoreError → Bool
  | .alreadyExists .. => true
  | _ => false

/-- What a client's failure means for one object: 404 is not found, 409 a conflict unless its
reason says that the name is taken, and all else stays a failure of the API. -/
def ofApi (failure : ApiFailure) (kind : Kind) (name : String) : StoreError :=
  match failure with
  | .refused _ _ reason code =>
    if code = 404 then .notFound kind name
    else if code = 409 then
      if reason = "AlreadyExists" then .alreadyExists kind name else .conflict kind name
    else .api failure
  | _ => .api failure

end StoreError

inductive AllocationError where
  | noEligiblePools (className : String)
  | exhausted (className : String)
  deriving DecidableEq

def AllocationError.message : AllocationError → String
  | .noEligiblePools c => "class " ++ c ++ " has no enabled, ready pools"
  | .exhausted c => "all ports in class " ++ c ++ " are in use"

inductive ControllerError where
  | store (cause : StoreError)
  | allocation (cause : AllocationError)
  | invalidConfig (detail : String)
  | missingField (object field : String)
  | webhook (detail : String)
  | watch (detail : String)
  deriving DecidableEq

namespace ControllerError

def message : ControllerError → String
  | .store cause => "Store error: " ++ cause.message
  | .allocation cause => "Port allocation failed: " ++ cause.message
  | .invalidConfig detail => "Invalid configuration: " ++ detail
  | .missingField object field => object ++ " is missing " ++ field
  | .webhook detail => "Webhook server error: " ++ detail
  | .watch detail => "Resource watch failed: " ++ detail

def isConflict : ControllerError → Bool
  | .store cause => cause.isConflict
  | _ => false

end ControllerError
end HostPorts
