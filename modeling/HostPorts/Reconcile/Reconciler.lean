import HostPorts.Config
import HostPorts.Reconcile.Claim
import HostPorts.Reconcile.Class
import HostPorts.Reconcile.Pool
import HostPorts.Reconcile.Port

/-!
One pass for an object of any kind. Nothing is done for pods.
-/
namespace HostPorts.Reconcile

def pass (now : Timestamp) (claimPrefix : String) (k : Kind) (ref : ObjectRef) : Pass Outcome :=
  match k with
  | .portClass => portClass ref.name
  | .portPool => portPool now ref.name
  | .portClaim => portClaim claimPrefix (ref.namespace_.getD "") ref.name
  | .port => port ref.name
  | .pod => finish

end HostPorts.Reconcile
