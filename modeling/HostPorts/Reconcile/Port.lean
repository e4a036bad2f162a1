import HostPorts.Allocation
import HostPorts.Deletion
import HostPorts.Reconcile.Basic

/-!
Ports: pending, then settled with a number. From the listing of what is occupied to the write of
the number a pass excludes other allocations, so that no two can choose alike. A port belongs to
one incarnation of its claim: it goes when that claim is gone, and a port under deletion waits
until it is.
-/
namespace HostPorts

namespace Port

def isOccupied (name : String) (ports : List Port) (number : UInt16) : Bool :=
  (Selection.occupiedPorts ports).any fun p => p.displayName ≠ name && p.number = number

/-- What the port gets when these pools and ports exist. -/
def allocation (p : Port) (pools : List PortPool) (ports : List Port) :
    Except AllocationError Allocation :=
  Allocation.allocate p.spec.classRef (Allocation.eligible pools p.spec.classRef)
    (isOccupied p.displayName ports)

def allocated (p : Port) (a : Allocation) : Port :=
  { p with status := some ⟨some .settled, a.port, some a.pool⟩ }

end Port

namespace Reconcile

/-- A missing class fails the pass, to be retried. -/
def allocatePort (p : Port) : Pass Outcome :=
  ask (.get .portClass ⟨none, p.spec.classRef⟩) fun _ =>
    .alone <|
      ask (.list .portPool) fun (pools : List PortPool) =>
        ask (.list .port) fun (ports : List Port) =>
          match p.allocation pools ports with
          | .error e => .done (.error (.allocation e))
          | .ok a => writeStatus (p.allocated a)

def checkClaim (r : ClaimReference) (next : Bool → Pass Outcome) : Pass Outcome :=
  find .portClaim ⟨some r.namespace_, r.name⟩ fun claim =>
    next (claim.any fun c => c.metadata.uid = some r.uid)

def reclaimPort (p : Port) : Pass Outcome :=
  match p.spec.claimRef with
  | none => finish
  | some r => checkClaim r fun isLive => if isLive then finish else commit (.deletePort p)

def finalizePort (p : Port) : Pass Outcome :=
  match DeletionStep.plan (p.phase = some .deleting) p.isProtected with
  | .markDeleting => writeStatus (p.withPhase .deleting)
  | .converged => finish
  | .checkDependents =>
    match p.spec.claimRef with
    | none => release p
    | some r => checkClaim r fun isLive => if isLive then finish else release p

def port (name : String) : Pass Outcome :=
  find .port ⟨none, name⟩ fun
    | none => finish
    | some p =>
      if p.isBeingDeleted then finalizePort p
      else
        match p.phase with
        | none =>
          writeStatus (k := .port) { p with status := some ⟨some .pending, 0, none⟩ }
        | some .pending => allocatePort p
        | some .settled => reclaimPort p
        | some .deleting => finish

end Reconcile
end HostPorts
