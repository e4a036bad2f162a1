import HostPorts.Deletion
import HostPorts.Reconcile.Basic

/-!
Classes: pending, then settled. A class under deletion waits for its pools and ports.
-/
namespace HostPorts.Reconcile

def finalizeClass (c : PortClass) : Pass Outcome :=
  match DeletionStep.plan (c.phase = some .deleting) c.isProtected with
  | .markDeleting => writeStatus (c.withPhase .deleting)
  | .converged => finish
  | .checkDependents =>
    let name := c.metadata.name.getD ""
    ask (.list .portPool) fun (pools : List PortPool) =>
      ask (.list .port) fun (ports : List Port) =>
        if (Selection.poolsOfClass name pools).isEmpty &&
            (Selection.portsOfClass name ports).isEmpty then release c
        else finish

def portClass (name : String) : Pass Outcome :=
  find .portClass ⟨none, name⟩ fun
    | none => finish
    | some c =>
      if c.isBeingDeleted then finalizeClass c
      else
        match c.phase with
        | none => writeStatus (c.withPhase .pending)
        | some .pending => writeStatus (c.withPhase .settled)
        | some _ => finish

end HostPorts.Reconcile
