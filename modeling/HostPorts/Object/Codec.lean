import HostPorts.Object

/-!
The JSON form of objects. The type words of an object are written but not read, except that a pod
may not claim to be something else.
-/
namespace HostPorts

def Kind.settledWord : Kind → String
  | .portClaim => "Bound"
  | .port => "Allocated"
  | _ => "Ready"

def Phase.word (k : Kind) : Phase → String
  | .pending => "Pending"
  | .settled => k.settledWord
  | .deleting => "Deleting"

def Phase.ofWord? (k : Kind) (word : String) : Option Phase :=
  if word = "Pending" then some .pending
  else if word = k.settledWord then some .settled
  else if word = "Deleting" then some .deleting
  else none

def Phase.read? (k : Kind) (j : Json) : Option Phase := j.word?.bind (Phase.ofWord? k)

def Phase.write (k : Kind) (p : Phase) : Json := .str (p.word k)

def ClaimReference.read? (j : Json) : Option ClaimReference := do
  let m ← j.record? ["namespace", "name", "uid"] 3
  return {
    namespace_ := ← m.required "namespace" Json.str?
    name := ← m.required "name" Json.str?
    uid := ← m.required "uid" Json.str? }

def ClaimReference.write (r : ClaimReference) : Json :=
  .obj [("name", .str r.name), ("namespace", .str r.namespace_), ("uid", .str r.uid)]

namespace Kind

def readSpec? : (k : Kind) → Json → Option k.Spec
  | .portClass, j => (j.record? [] 0).map fun _ => {}
  | .portPool, j => do
    let m ← j.record? ["classRef", "start", "end", "enabled"] 3
    return {
      classRef := ← m.required "classRef" Json.str?
      first := ← m.required "start" Json.uint16?
      last := ← m.required "end" Json.uint16?
      enabled := ← m.defaulted "enabled" true Json.bool? }
  | .portClaim, j => do
    let m ← j.record? ["classRef"] 1
    return { classRef := ← m.required "classRef" Json.str? }
  | .port, j => do
    let m ← j.record? ["claimRef", "classRef"] 2
    return {
      claimRef := ← m.optional "claimRef" ClaimReference.read?
      classRef := ← m.required "classRef" Json.str? }
  | .pod, j => (PodSpec.read? j).map some

def writeSpec : (k : Kind) → k.Spec → Json
  | .portClass, _ => .obj []
  | .portPool, s =>
    .obj [("classRef", .str s.classRef), ("enabled", .bool s.enabled),
      ("end", Json.ofUInt16 s.last), ("start", Json.ofUInt16 s.first)]
  | .portClaim, s => .obj [("classRef", .str s.classRef)]
  | .port, s =>
    .obj (Json.member "claimRef" ClaimReference.write s.claimRef ++
      [("classRef", .str s.classRef)])
  | .pod, s => (s.map PodSpec.write).getD .null

def readStatus? : (k : Kind) → Json → Option k.Status
  | .portClass, j => do
    let m ← j.record? ["phase"] 0
    return { phase := ← m.optional "phase" (Phase.read? .portClass) }
  | .portPool, j => do
    let m ← j.record? ["phase", "conditions"] 0
    return {
      phase := ← m.optional "phase" (Phase.read? .portPool)
      conditions := ← m.defaulted "conditions" [] (Json.list? Condition.read?) }
  | .portClaim, j => do
    let m ← j.record? ["phase", "boundPortName"] 0
    return {
      phase := ← m.optional "phase" (Phase.read? .portClaim)
      boundPortName := ← m.optional "boundPortName" Json.str? }
  | .port, j => do
    let m ← j.record? ["phase", "port", "poolName"] 0
    return {
      phase := ← m.optional "phase" (Phase.read? .port)
      port := ← m.defaulted "port" 0 Json.uint16?
      poolName := ← m.optional "poolName" Json.str? }
  | .pod, _ => none

def writeConditions (conditions : Conditions) : Members :=
  if conditions.isEmpty then [] else [("conditions", .arr (conditions.map Condition.write))]

def writeStatus : (k : Kind) → k.Status → Json
  | .portClass, s => .obj (Json.member "phase" (Phase.write .portClass) s.phase)
  | .portPool, s =>
    .obj (writeConditions s.conditions ++ Json.member "phase" (Phase.write .portPool) s.phase)
  | .portClaim, s =>
    .obj (Json.member "boundPortName" .str s.boundPortName ++
      Json.member "phase" (Phase.write .portClaim) s.phase)
  | .port, s =>
    .obj (Json.member "phase" (Phase.write .port) s.phase ++
      Json.member "poolName" .str s.poolName ++ [("port", Json.ofUInt16 s.port)])

end Kind

namespace Object

def typeWordFits (m : Members) (name word : String) : Bool :=
  match m.find? name with
  | none => true
  | some (.str w) => w = word
  | some _ => false

def readPod? (j : Json) : Option Pod := do
  let m ← j.members?
  if typeWordFits m "apiVersion" "v1" && typeWordFits m "kind" "Pod" then
    return {
      metadata := ← m.required "metadata" Metadata.read?
      spec := ← m.optional "spec" PodSpec.read?
      status := none }
  else none

def readRecord? (k : Kind) (j : Json) : Option (Object k) := do
  let m ← j.record? ["metadata", "spec", "status"] 3
  return {
    metadata := ← m.required "metadata" Metadata.read?
    spec := ← m.required "spec" k.readSpec?
    status := ← m.optional "status" k.readStatus? }

def read? : (k : Kind) → Json → Option (Object k)
  | .pod, j => readPod? j
  | k, j => readRecord? k j

def specMember : {k : Kind} → Object k → Members
  | .pod, o => Json.member "spec" PodSpec.write o.spec
  | .portClass, o => [("spec", Kind.portClass.writeSpec o.spec)]
  | .portPool, o => [("spec", Kind.portPool.writeSpec o.spec)]
  | .portClaim, o => [("spec", Kind.portClaim.writeSpec o.spec)]
  | .port, o => [("spec", Kind.port.writeSpec o.spec)]

def write {k : Kind} (o : Object k) : Json :=
  .obj ([("apiVersion", .str k.apiVersion), ("kind", .str k.name),
      ("metadata", o.metadata.write)] ++ o.specMember ++
    Json.member "status" k.writeStatus o.status)

end Object
end HostPorts
