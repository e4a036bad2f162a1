import HostPorts.Object

/-!
Overlap of pool ranges. Port numbers are unique across the cluster, so a pool is compared with all
others whatever their class.
-/
namespace HostPorts

/-- Both ends belong to a range. -/
structure PortRange where
  first : UInt16
  last : UInt16
  deriving DecidableEq

namespace PortRange

def Contains (r : PortRange) (p : UInt16) : Prop := r.first ≤ p ∧ p ≤ r.last

instance (r : PortRange) (p : UInt16) : Decidable (r.Contains p) :=
  inferInstanceAs (Decidable (_ ∧ _))

def overlaps (a b : PortRange) : Bool := a.first ≤ b.last && b.first ≤ a.last

end PortRange

namespace PortPool

def range (p : PortPool) : PortRange := ⟨p.spec.first, p.spec.last⟩

/-- The first of the other pools, told apart by name, whose range overlaps this one's. -/
def findOverlap (p : PortPool) (others : List PortPool) : Option PortPool :=
  others.find? fun other =>
    other.metadata.name ≠ p.metadata.name && p.range.overlaps other.range

end PortPool
end HostPorts
