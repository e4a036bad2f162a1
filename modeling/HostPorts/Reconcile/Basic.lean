import HostPorts.Pass

/-!
The pieces of a reconcile pass: requests whose errors end the pass, look-ups for which an absent
object is no error, and selections from the lists of a store.
-/
namespace HostPorts

abbrev Outcome := Except ControllerError Unit

namespace Reconcile

def ask (r : Request) (next : r.Answer → Pass Outcome) : Pass Outcome :=
  .call r fun
    | .ok a => next a
    | .error e => .done (.error (.store e))

def find (k : Kind) (ref : ObjectRef) (next : Option (Object k) → Pass Outcome) : Pass Outcome :=
  .call (.get k ref) fun
    | .ok (o : Object k) => next (some o)
    | .error e => if e.isNotFound then next none else .done (.error (.store e))

def finish : Pass Outcome := .done (.ok ())

def commit (r : Request) : Pass Outcome := ask r fun _ => finish

def writeStatus {k : Kind} (o : Object k) : Pass Outcome := commit (.updateStatus k o)

def release {k : Kind} (o : Object k) : Pass Outcome := commit (.updateFinalizers k o.released)

end Reconcile

namespace Selection

def poolsOfClass (className : String) (pools : List PortPool) : List PortPool :=
  pools.filter fun p => p.spec.classRef = className

def portsOfClass (className : String) (ports : List Port) : List Port :=
  ports.filter fun p => p.spec.classRef = className

def portsOfPool (pool : String) (ports : List Port) : List Port :=
  ports.filter fun p => p.poolName = some pool && p.number ≠ 0

def occupiedPorts (ports : List Port) : List Port := ports.filter fun p => p.number ≠ 0

end Selection
end HostPorts
