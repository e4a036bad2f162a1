import HostPorts.Pass
import HostPorts.Reconcile.Basic

/-!
Listings of a store that are made by selection from its lists.
-/
namespace HostPorts.Listing

def pools (select : List PortPool → List PortPool) : Pass (Except StoreError (List PortPool)) :=
  .call (.list .portPool) fun (reply : Except StoreError (List PortPool)) =>
    .done (reply.map select)

def ports (select : List Port → List Port) : Pass (Except StoreError (List Port)) :=
  .call (.list .port) fun (reply : Except StoreError (List Port)) => .done (reply.map select)

def poolsOfClass (className : String) : Pass (Except StoreError (List PortPool)) :=
  pools (Selection.poolsOfClass className)

def portsOfClass (className : String) : Pass (Except StoreError (List Port)) :=
  ports (Selection.portsOfClass className)

def portsOfPool (pool : String) : Pass (Except StoreError (List Port)) :=
  ports (Selection.portsOfPool pool)

def occupiedPorts : Pass (Except StoreError (List Port)) := ports Selection.occupiedPorts

end HostPorts.Listing
