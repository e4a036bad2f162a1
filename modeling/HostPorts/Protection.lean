import HostPorts.Metadata

/-!
Protection tokens. Each host-port kind has one finalizer that keeps its objects stored while others
depend on them; tokens are attached at admission and released by the owning controller.
-/
namespace HostPorts

inductive ProtectionToken where
  | ofClass
  | ofPool
  | ofClaim
  | ofPort
  deriving DecidableEq

namespace ProtectionToken

def text : ProtectionToken → String
  | .ofClass => "hostport.microscaler.io/class-protection"
  | .ofPool => "hostport.microscaler.io/pool-protection"
  | .ofClaim => "hostport.microscaler.io/claim-protection"
  | .ofPort => "hostport.microscaler.io/port-protection"

def isHeldBy (token : ProtectionToken) (m : Metadata) : Bool := m.finalizerList.contains token.text

/-- Appends the token unless it is held; whether it was appended. -/
def attach (token : ProtectionToken) (m : Metadata) : Bool × Metadata :=
  if token.isHeldBy m then (false, m)
  else (true, { m with finalizers := some (m.finalizerList ++ [token.text]) })

/-- Removes every copy of the token and keeps the others in order; whether there was one. -/
def release (token : ProtectionToken) (m : Metadata) : Bool × Metadata :=
  match m.finalizers with
  | none => (false, m)
  | some held =>
    let kept := held.filter (· ≠ token.text)
    (decide (kept.length ≠ held.length), { m with finalizers := some kept })

end ProtectionToken
end HostPorts
