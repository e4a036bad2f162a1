import HostPorts.Admission.FieldError
import HostPorts.Config
import HostPorts.Dependency
import HostPorts.Pass

/-!
Injection of allocated ports into a pod. Each annotation `claimPrefix/port: claim` is followed to
the claim's port, whose number goes into the container port of that name and into an annotation
`portPrefix/port`. Host ports set in any other way are refused. All faults are collected.
-/
namespace HostPorts.Injection

def annotationPath (key : String) : String := "metadata.annotations[" ++ key ++ "]"

def claimPath (prefixes : AnnotationPrefixes) (portName : String) : String :=
  annotationPath (prefixes.claim ++ "/" ++ portName)

def annotationErrors (prefixes : AnnotationPrefixes) (pair : String × String) : List FieldError :=
  let path := claimPath prefixes pair.1
  if pair.1 = "" then
    [FieldError.invalid path (prefixes.claim ++ "/") "annotation name must contain the port name"]
  else if pair.2 = "" then
    [FieldError.invalid path "" "annotation value must contain the claim name"]
  else []

structure Site where
  container : Nat
  port : Nat
  value : ContainerPort
  deriving DecidableEq

namespace Site

def path (s : Site) : String :=
  "spec.containers[" ++ toString s.container ++ "].ports[" ++ toString s.port ++ "]"

def name (s : Site) : String := s.value.name.getD ""

end Site

def containersOf (p : Pod) : List Container := (p.spec.map (·.containers)).getD []

def sitesOf (containers : List Container) : List Site :=
  containers.zipIdx.flatMap fun (c, ci) =>
    (c.ports.getD []).zipIdx.map fun (port, pi) => ⟨ci, pi, port⟩

/-- Faults of the container ports in order; `seen` holds the names before them. Names are only
asked for when there is a claim. -/
def siteErrors (claimed : List String) (seen : List String) : List Site → List FieldError
  | [] => []
  | s :: rest =>
    (if claimed.isEmpty then []
      else if s.name = "" then [FieldError.invalid (s.path ++ ".name") "" "port name must be set"]
      else if seen.contains s.name then [FieldError.duplicate (s.path ++ ".name") s.name]
      else []) ++
    (if 0 < s.value.hostPort.getD 0 && !claimed.contains s.name then
      [FieldError.invalid (s.path ++ ".hostPort") (toString (s.value.hostPort.getD 0))
        "host ports cannot be set"]
      else []) ++
    siteErrors claimed (if s.name = "" then seen else s.name :: seen) rest

def lookupError (path name : String) (e : StoreError) : FieldError :=
  if e.isNotFound then FieldError.notFound path name else FieldError.internal path e.message

def claimErrors (path : String) (claimName : String) (claim : PortClaim) : List FieldError :=
  (if claim.phase = some .settled || claim.phase = some .deleting then []
    else [FieldError.invalid path claimName "claim is not bound to a port yet"]) ++
  (if claim.isProtected then []
    else [FieldError.invalid path claimName "claim is deleting"])

def resolve (namespace_ claimName path : String) : Pass (Except (List FieldError) UInt16) :=
  .call (.get .portClaim ⟨some namespace_, claimName⟩) fun
    | .error e => .done (.error [lookupError path claimName e])
    | .ok (claim : PortClaim) =>
      let errors := claimErrors path claimName claim
      if errors ≠ [] then .done (.error errors)
      else
        let portName := claim.backingPortName.getD ""
        .call (.get .port ⟨none, portName⟩) fun
          | .error e => .done (.error [lookupError path portName e])
          | .ok (port : Port) =>
            if port.phase = some .settled && port.number ≠ 0 then .done (.ok port.number)
            else .done (.error [FieldError.invalid path portName "port is not allocated yet"])

def resolveAll (prefixes : AnnotationPrefixes) (namespace_ : String) :
    List (String × String) → Pass (List FieldError × List (String × UInt16))
  | [] => .done ([], [])
  | (portName, claimName) :: rest =>
    (resolve namespace_ claimName (claimPath prefixes portName)).bind fun outcome =>
      (resolveAll prefixes namespace_ rest).bind fun (errors, numbers) =>
        .done <| match outcome with
          | .error es => (es ++ errors, numbers)
          | .ok n => (errors, (portName, n) :: numbers)

def setHostPort (s : Site) (number : UInt16) (p : Pod) : Pod :=
  { p with
    spec := p.spec.map fun spec =>
      { spec with
        containers := spec.containers.modify s.container fun c =>
          { c with
            ports := c.ports.map fun ports =>
              ports.modify s.port fun port =>
                { port with hostPort := some (Int.ofNat number.toNat) } } } }

def annotate (key value : String) (p : Pod) : Pod :=
  { p with
    metadata := { p.metadata with annotations := some (p.metadata.annotationMap.insert key value) } }

/-- Writes one number into the pod; a name without a container port changes nothing. -/
def place (prefixes : AnnotationPrefixes) (sites : List Site) (p : Pod)
    (resolved : String × UInt16) : Pod :=
  match sites.find? fun s => s.name = resolved.1 with
  | none => p
  | some s =>
    setHostPort s resolved.2
      (annotate (prefixes.port ++ "/" ++ resolved.1) (toString resolved.2.toNat) p)

/-- The pod with all its numbers, or every fault found. -/
def inject (prefixes : AnnotationPrefixes) (namespace_ : String) (p : Pod) :
    Pass (Except (List FieldError) Pod) :=
  let pairs := claimAnnotations p.metadata prefixes.claim
  let claims := pairs.filter fun pair => pair.1 ≠ ""
  let sites := sitesOf (containersOf p)
  let found := pairs.flatMap (annotationErrors prefixes) ++ siteErrors (claims.map (·.1)) [] sites
  (resolveAll prefixes namespace_ (claims.filter fun pair => pair.2 ≠ "")).bind
    fun (errors, numbers) =>
      .done <|
        if found ++ errors = [] then .ok (numbers.foldl (place prefixes sites) p)
        else .error (found ++ errors)

end HostPorts.Injection
