import HostPorts.Deletion
import HostPorts.Dependency
import HostPorts.Reconcile.Basic

/-!
Claims: pending, then settled once the port named after the claim's uid exists. Creating that port
again is harmless, so a pass that was cut short is simply repeated. A settled claim whose port has
gone gets it back; a claim under deletion waits for the pods that name it.
-/
namespace HostPorts

namespace PortClaim

def backingPort (c : PortClaim) (namespace_ uid : String) : Port :=
  let metadata : Metadata := { name := some (portNameForClaim uid) }
  { metadata := (ProtectionToken.ofPort.attach metadata).2
    spec := ⟨some ⟨namespace_, c.displayName, uid⟩, c.spec.classRef⟩
    status := none }

def isUsedBy (name claimPrefix : String) (pod : Pod) : Bool :=
  (claimAnnotations pod.metadata claimPrefix).any fun pair => pair.2 = name

end PortClaim

namespace Reconcile

/-- Makes sure that the backing port exists and goes on with its name. -/
def ensureBackingPort (c : PortClaim) (next : String → Pass Outcome) : Pass Outcome :=
  match c.metadata.namespace_, c.metadata.uid with
  | none, _ => .done (.error (.missingField c.displayName "metadata.namespace"))
  | some _, none => .done (.error (.missingField c.displayName "metadata.uid"))
  | some ns, some uid =>
    .call (.createPort (c.backingPort ns uid)) fun
      | .ok _ => next (portNameForClaim uid)
      | .error e =>
        if e.isAlreadyExists then next (portNameForClaim uid) else .done (.error (.store e))

def bindClaim (c : PortClaim) : Pass Outcome :=
  ensureBackingPort c fun portName =>
    writeStatus (k := .portClaim) { c with status := some ⟨some .settled, some portName⟩ }

def healClaim (c : PortClaim) : Pass Outcome :=
  match c.backingPortName with
  | none => .done (.error (.missingField c.displayName "metadata.uid"))
  | some portName =>
    find .port ⟨none, portName⟩ fun
      | some _ => finish
      | none => ensureBackingPort c fun _ => finish

def finalizeClaim (claimPrefix : String) (c : PortClaim) : Pass Outcome :=
  match DeletionStep.plan (c.phase = some .deleting) c.isProtected with
  | .markDeleting => writeStatus (c.withPhase .deleting)
  | .converged => finish
  | .checkDependents =>
    ask (.listPods (c.metadata.namespace_.getD "")) fun (pods : List Pod) =>
      if pods.any (PortClaim.isUsedBy c.displayName claimPrefix) then finish else release c

def portClaim (claimPrefix namespace_ name : String) : Pass Outcome :=
  find .portClaim ⟨some namespace_, name⟩ fun
    | none => finish
    | some c =>
      if c.isBeingDeleted then finalizeClaim claimPrefix c
      else
        match c.phase with
        | none => writeStatus (k := .portClaim) { c with status := some ⟨some .pending, none⟩ }
        | some .pending => bindClaim c
        | some .settled => healClaim c
        | some .deleting => finish

end Reconcile
end HostPorts
