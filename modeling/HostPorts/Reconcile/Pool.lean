import HostPorts.Deletion
import HostPorts.Overlap
import HostPorts.Reconcile.Basic

/-!
Pools: pending, then settled once an overlap check has found the range clear. The check runs once;
its verdict is a condition that is never looked into again. A pool under deletion waits for the
ports that hold its numbers.
-/
namespace HostPorts

namespace PortPool

def withOverlap (now : Timestamp) (p : PortPool) (status : ConditionStatus)
    (reason message : String) : PortPool :=
  let s := p.status.getD {}
  { p with
    status := some { s with
      conditions := (s.conditions.set now ⟨overlapType, status, reason, message, none⟩).2 } }

def overlapMessage (p other : PortPool) : String :=
  "range " ++ toString p.spec.first.toNat ++ "-" ++ toString p.spec.last.toNat ++
    " overlaps pool " ++ other.displayName ++ " (" ++ toString other.spec.first.toNat ++ "-" ++
    toString other.spec.last.toNat ++ ")"

def checked (now : Timestamp) (p : PortPool) (pools : List PortPool) : PortPool :=
  match p.findOverlap pools with
  | some other => p.withOverlap now .false_ "Overlap" (p.overlapMessage other)
  | none =>
    (p.withOverlap now .true_ "NoOverlap" "range does not overlap any other pool").withPhase
      .settled

end PortPool

namespace Reconcile

def checkOverlap (now : Timestamp) (p : PortPool) : Pass Outcome :=
  match p.overlapStatus with
  | none =>
    writeStatus (p.withOverlap now .unknown "NotChecked" "overlap check has not run yet")
  | some .false_ => finish
  | some .unknown =>
    ask (.list .portPool) fun (pools : List PortPool) => writeStatus (p.checked now pools)
  | some .true_ => writeStatus (p.withPhase .settled)

def finalizePool (p : PortPool) : Pass Outcome :=
  match DeletionStep.plan (p.phase = some .deleting) p.isProtected with
  | .markDeleting => writeStatus (p.withPhase .deleting)
  | .converged => finish
  | .checkDependents =>
    ask (.list .port) fun (ports : List Port) =>
      if (Selection.portsOfPool p.displayName ports).isEmpty then release p else finish

def portPool (now : Timestamp) (name : String) : Pass Outcome :=
  find .portPool ⟨none, name⟩ fun
    | none => finish
    | some p =>
      if p.isBeingDeleted then finalizePool p
      else
        match p.phase with
        | none => writeStatus (p.withPhase .pending)
        | some .pending => checkOverlap now p
        | some _ => finish

end Reconcile
end HostPorts
