import HostPorts.Json.Basic
import HostPorts.Timestamp

/-!
Object metadata and its JSON form. Every field is optional, absent and `null` read alike, and a
field without a value is not written. Timestamps are written to the whole second. Nothing here
looks at `deletionGracePeriodSeconds`, `managedFields` and `selfLink`: like members of unknown names
they are passed over when metadata is read, and not written.
-/
namespace HostPorts

structure OwnerReference where
  apiVersion : String
  blockOwnerDeletion : Option Bool
  controller : Option Bool
  kind : String
  name : String
  uid : String
  deriving DecidableEq

structure Metadata where
  annotations : Option (SortedMap String) := none
  creationTimestamp : Option Timestamp := none
  deletionTimestamp : Option Timestamp := none
  finalizers : Option (List String) := none
  generateName : Option String := none
  generation : Option Int64 := none
  labels : Option (SortedMap String) := none
  name : Option String := none
  namespace_ : Option String := none
  ownerReferences : Option (List OwnerReference) := none
  resourceVersion : Option String := none
  uid : Option String := none
  deriving DecidableEq

def OwnerReference.read? (j : Json) : Option OwnerReference := do
  let m ← j.members?
  return {
    apiVersion := (← m.optional "apiVersion" Json.str?).getD ""
    blockOwnerDeletion := ← m.optional "blockOwnerDeletion" Json.bool?
    controller := ← m.optional "controller" Json.bool?
    kind := (← m.optional "kind" Json.str?).getD ""
    name := (← m.optional "name" Json.str?).getD ""
    uid := (← m.optional "uid" Json.str?).getD "" }

def OwnerReference.write (r : OwnerReference) : Json :=
  .obj ([("apiVersion", .str r.apiVersion)] ++
    Json.member "blockOwnerDeletion" .bool r.blockOwnerDeletion ++
    Json.member "controller" .bool r.controller ++
    [("kind", .str r.kind), ("name", .str r.name), ("uid", .str r.uid)])

namespace Metadata

def readTime? (j : Json) : Option Timestamp := j.str?.bind Timestamp.read?

def writeTime (t : Timestamp) : Json := .str t.renderSeconds

def read? (j : Json) : Option Metadata := do
  let m ← j.members?
  return {
    annotations := ← m.optional "annotations" (Json.map? Json.str?)
    creationTimestamp := ← m.optional "creationTimestamp" readTime?
    deletionTimestamp := ← m.optional "deletionTimestamp" readTime?
    finalizers := ← m.optional "finalizers" (Json.list? Json.str?)
    generateName := ← m.optional "generateName" Json.str?
    generation := ← m.optional "generation" Json.int64?
    labels := ← m.optional "labels" (Json.map? Json.str?)
    name := ← m.optional "name" Json.str?
    namespace_ := ← m.optional "namespace" Json.str?
    ownerReferences := ← m.optional "ownerReferences" (Json.list? OwnerReference.read?)
    resourceVersion := ← m.optional "resourceVersion" Json.str?
    uid := ← m.optional "uid" Json.str? }

def write (m : Metadata) : Json :=
  .obj (Json.member "annotations" Json.ofStringMap m.annotations ++
    Json.member "creationTimestamp" writeTime m.creationTimestamp ++
    Json.member "deletionTimestamp" writeTime m.deletionTimestamp ++
    Json.member "finalizers" Json.ofStrings m.finalizers ++
    Json.member "generateName" .str m.generateName ++
    Json.member "generation" Json.ofInt64 m.generation ++
    Json.member "labels" Json.ofStringMap m.labels ++
    Json.member "name" .str m.name ++
    Json.member "namespace" .str m.namespace_ ++
    Json.member "ownerReferences" (fun rs => .arr (rs.map OwnerReference.write))
      m.ownerReferences ++
    Json.member "resourceVersion" .str m.resourceVersion ++
    Json.member "uid" .str m.uid)

/-- The name to speak of an object by: its own, else the stem of a generated one, else nothing. -/
def displayName (m : Metadata) : String := (m.name <|> m.generateName).getD ""

def finalizerList (m : Metadata) : List String := m.finalizers.getD []

def annotationMap (m : Metadata) : SortedMap String := m.annotations.getD SortedMap.empty

def isBeingDeleted (m : Metadata) : Bool := m.deletionTimestamp.isSome

end Metadata
end HostPorts
