import HostPorts.Condition
import HostPorts.Kind
import HostPorts.Pod
import HostPorts.Protection

/-!
Objects of the five kinds: metadata, a specification and, once a controller has written one, a
status. All kinds but pods share one life cycle of three phases, under their own words for the
middle one.
-/
namespace HostPorts

/-- `settled` is the phase in which an object does its job. -/
inductive Phase where
  | pending
  | settled
  | deleting
  deriving DecidableEq

structure ClassSpec where
  deriving DecidableEq

structure PoolSpec where
  classRef : String
  /-- First and last port of the range, both included. -/
  first : UInt16
  last : UInt16
  /-- Disabled pools stay settled, but nothing is allocated from them. -/
  enabled : Bool
  deriving DecidableEq

structure ClaimSpec where
  classRef : String
  deriving DecidableEq

/-- One incarnation of a claim: the uid tells it from a later claim of the same name. -/
structure ClaimReference where
  namespace_ : String
  name : String
  uid : String
  deriving DecidableEq

structure PortSpec where
  claimRef : Option ClaimReference
  classRef : String
  deriving DecidableEq

structure ClassStatus where
  phase : Option Phase := none
  deriving DecidableEq

structure PoolStatus where
  phase : Option Phase := none
  conditions : Conditions := []
  deriving DecidableEq

structure ClaimStatus where
  phase : Option Phase := none
  boundPortName : Option String := none
  deriving DecidableEq

structure PortStatus where
  phase : Option Phase := none
  /-- The allocated port, 0 while there is none. -/
  port : UInt16 := 0
  poolName : Option String := none
  deriving DecidableEq

namespace Kind

@[reducible] def Spec : Kind → Type
  | .portClass => ClassSpec
  | .portPool => PoolSpec
  | .portClaim => ClaimSpec
  | .port => PortSpec
  | .pod => Option PodSpec

/-- The status of a pod is not looked at. -/
@[reducible] def Status : Kind → Type
  | .portClass => ClassStatus
  | .portPool => PoolStatus
  | .portClaim => ClaimStatus
  | .port => PortStatus
  | .pod => Empty

instance (k : Kind) : DecidableEq k.Spec := by
  cases k <;> simp only [Spec] <;> infer_instance

instance (k : Kind) : DecidableEq k.Status := by
  cases k <;> simp only [Status] <;> infer_instance

def token? : Kind → Option ProtectionToken
  | .portClass => some .ofClass
  | .portPool => some .ofPool
  | .portClaim => some .ofClaim
  | .port => some .ofPort
  | .pod => none

end Kind

structure Object (k : Kind) where
  metadata : Metadata
  spec : k.Spec
  status : Option k.Status
  deriving DecidableEq

abbrev PortClass := Object .portClass
abbrev PortPool := Object .portPool
abbrev PortClaim := Object .portClaim
abbrev Port := Object .port
abbrev Pod := Object .pod

structure ObjectRef where
  namespace_ : Option String := none
  name : String
  deriving DecidableEq

/-- The key of the stored object: `namespace/name`, or the name alone without a namespace. -/
def ObjectRef.key (r : ObjectRef) : String :=
  match r.namespace_ with
  | some ns => ns ++ "/" ++ r.name
  | none => r.name

namespace Object

def ref {k : Kind} (o : Object k) : ObjectRef := ⟨o.metadata.namespace_, o.metadata.name.getD ""⟩

def key {k : Kind} (o : Object k) : String := o.ref.key

def displayName {k : Kind} (o : Object k) : String := o.metadata.displayName

def isBeingDeleted {k : Kind} (o : Object k) : Bool := o.metadata.isBeingDeleted

def isProtected {k : Kind} (o : Object k) : Bool := k.token?.any fun t => t.isHeldBy o.metadata

def phaseOf : (k : Kind) → k.Status → Option Phase
  | .portClass, s => s.phase
  | .portPool, s => s.phase
  | .portClaim, s => s.phase
  | .port, s => s.phase
  | .pod, _ => none

def phase {k : Kind} (o : Object k) : Option Phase := o.status.bind (phaseOf k)

def released {k : Kind} (o : Object k) : Object k :=
  match k.token? with
  | some t => { o with metadata := (t.release o.metadata).2 }
  | none => o

def withPhase : {k : Kind} → Object k → Phase → Object k
  | .portClass, o, p => { o with status := some { o.status.getD {} with phase := some p } }
  | .portPool, o, p => { o with status := some { o.status.getD {} with phase := some p } }
  | .portClaim, o, p => { o with status := some { o.status.getD {} with phase := some p } }
  | .port, o, p => { o with status := some { o.status.getD {} with phase := some p } }
  | .pod, o, _ => o

end Object

namespace PortPool

def conditions (p : PortPool) : Conditions := (p.status.map (·.conditions)).getD []

def overlapType : String := "Overlap"

def overlap? (p : PortPool) : Option Condition := p.conditions.find? overlapType

def overlapStatus (p : PortPool) : Option ConditionStatus := p.overlap?.map fun c => c.status

end PortPool

def portNameForClaim (uid : String) : String := "claim-" ++ uid

namespace PortClaim

def boundPortName (c : PortClaim) : Option String := c.status.bind (·.boundPortName)

/-- The recorded name, else the one derived from the uid; none before the claim is stored. -/
def backingPortName (c : PortClaim) : Option String :=
  c.boundPortName <|> c.metadata.uid.map portNameForClaim

end PortClaim

namespace Port

def number (p : Port) : UInt16 := (p.status.map (·.port)).getD 0

def poolName (p : Port) : Option String := p.status.bind (·.poolName)

end Port
end HostPorts
