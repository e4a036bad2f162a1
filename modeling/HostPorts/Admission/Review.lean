import HostPorts.Json.Patch
import HostPorts.Object.Codec

/-!
Admission reviews: what a server asks about an object that is about to be written, and the answer.
A review without a request is answered as invalid.
-/
namespace HostPorts.Admission

inductive Operation where
  | create
  | update
  | delete
  | connect
  deriving DecidableEq

def Operation.ofWord? : String → Option Operation
  | "CREATE" => some .create
  | "UPDATE" => some .update
  | "DELETE" => some .delete
  | "CONNECT" => some .connect
  | _ => none

structure Query (k : Kind) where
  uid : String
  operation : Operation
  namespace_ : Option String
  object : Option (Object k)
  oldObject : Option (Object k)
  deriving DecidableEq

structure Review (k : Kind) where
  apiVersion : String
  kind : String
  query : Option (Query k)
  deriving DecidableEq

def readTriple? (last : String) (j : Json) : Option Unit := do
  let m ← j.record? ["group", "version", last] 3
  let _ ← m.required "group" Json.str?
  let _ ← m.required "version" Json.str?
  let _ ← m.required last Json.str?
  return ()

def readUser? (j : Json) : Option Unit := do
  let m ← j.members?
  let _ ← m.optional "username" Json.str?
  let _ ← m.optional "uid" Json.str?
  let _ ← m.optional "groups" (Json.list? Json.str?)
  let _ ← m.optional "extra" (Json.map? (Json.list? Json.str?))
  return ()

namespace Query

def fieldNames : List String :=
  ["uid", "kind", "resource", "subResource", "requestKind", "requestResource",
    "requestSubResource", "name", "namespace", "operation", "userInfo", "object", "oldObject",
    "dryRun", "options"]

def read? (k : Kind) (j : Json) : Option (Query k) := do
  let m ← j.record? fieldNames 15
  let _ ← m.required "kind" (readTriple? "kind")
  let _ ← m.required "resource" (readTriple? "resource")
  let _ ← m.optional "subResource" Json.str?
  let _ ← m.optional "requestKind" (readTriple? "kind")
  let _ ← m.optional "requestResource" (readTriple? "resource")
  let _ ← m.optional "requestSubResource" Json.str?
  let _ ← m.defaulted "name" "" Json.str?
  let _ ← m.required "userInfo" readUser?
  let _ ← m.defaulted "dryRun" false Json.bool?
  return {
    uid := ← m.required "uid" Json.str?
    operation := ← m.required "operation" fun j => j.word?.bind Operation.ofWord?
    namespace_ := ← m.optional "namespace" Json.str?
    object := ← m.optional "object" (Object.read? k)
    oldObject := ← m.optional "oldObject" (Object.read? k) }

end Query

def Review.read? (k : Kind) (j : Json) : Option (Review k) :=
  match j with
  | .obj _ => do
    let m ← j.record? ["apiVersion", "kind", "request"] 3
    return {
      apiVersion := ← m.required "apiVersion" Json.str?
      kind := ← m.required "kind" Json.str?
      query := ← m.optional "request" (Query.read? k) }
  | _ => none

structure Status where
  outcome : String := ""
  message : String := ""
  reason : String := ""
  deriving DecidableEq

def textMember (name text : String) : Members := if text = "" then [] else [(name, .str text)]

def Status.write (s : Status) : Json :=
  .obj (textMember "status" s.outcome ++ textMember "message" s.message ++
    textMember "reason" s.reason)

structure Response where
  apiVersion : String
  kind : String
  uid : String
  allowed : Bool
  status : Status := {}
  patch : List Json.Edit := []

namespace Response

def invalid : Response where
  apiVersion := "admission.k8s.io/v1beta1"
  kind := "AdmissionReview"
  uid := ""
  allowed := false
  status := {
    outcome := "Failure"
    message := "failed to convert AdmissionReview into AdmissionRequest"
    reason := "InvalidRequest" }

def allow {k : Kind} (review : Review k) (q : Query k) : Response where
  apiVersion := review.apiVersion
  kind := review.kind
  uid := q.uid
  allowed := true

def deny (r : Response) (message : String) : Response :=
  { r with allowed := false, status := { r.status with message := message } }

def withDiff {k : Kind} (r : Response) (before after : Object k) : Response :=
  { r with patch := Json.diff [] before.write after.write }

def patchMembers (patch : List Json.Edit) : Members :=
  if patch.isEmpty then []
  else [("patch", .arr (patch.map Json.Edit.write)), ("patchType", .str "JSONPatch")]

def write (r : Response) : Json :=
  .obj [("apiVersion", .str r.apiVersion), ("kind", .str r.kind),
    ("response", .obj ([("uid", .str r.uid), ("allowed", .bool r.allowed),
      ("status", r.status.write)] ++ patchMembers r.patch))]

end Response
end HostPorts.Admission
