import HostPorts.Object

/-!
Which object a change of another one concerns. A change of a pool or port may unblock its class, a
port's its pool and its claim, a claim's its port, a pod's the claims that it names.
-/
namespace HostPorts

/-- The pairs of port name and claim name in annotations `prefix/port: claim`, in key order. -/
def claimAnnotations (m : Metadata) (claimPrefix : String) : List (String × String) :=
  m.annotationMap.entries.filterMap fun e =>
    ((claimPrefix.toList ++ ['/']).isPrefixOf? e.1.toList).map fun port =>
      (String.ofList port, e.2)

namespace Dependency

def named (name : String) : Option ObjectRef := if name = "" then none else some ⟨none, name⟩

def poolToClass (p : PortPool) : Option ObjectRef := named p.spec.classRef

def portToClass (p : Port) : Option ObjectRef := named p.spec.classRef

def portToPool (p : Port) : Option ObjectRef := p.poolName.bind named

def portToClaim (p : Port) : Option ObjectRef :=
  p.spec.claimRef.bind fun r => if r.name = "" then none else some ⟨some r.namespace_, r.name⟩

def claimToPort (c : PortClaim) : Option ObjectRef := c.backingPortName.map (⟨none, ·⟩)

def dropRepeats : List ObjectRef → List ObjectRef
  | [] => []
  | [r] => [r]
  | a :: b :: rest => if a = b then dropRepeats (b :: rest) else a :: dropRepeats (b :: rest)

/-- The claims named by a pod that has a namespace; only neighbours are compared for repeats. -/
def podToClaims (p : Pod) (claimPrefix : String) : List ObjectRef :=
  match p.metadata.namespace_ with
  | none => []
  | some ns =>
    dropRepeats ((claimAnnotations p.metadata claimPrefix).filterMap fun (_, claim) =>
      if claim = "" then none else some ⟨some ns, claim⟩)

end Dependency
end HostPorts
