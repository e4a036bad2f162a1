import HostPorts.Object

/-!
What can be asked of a store of objects, and the type of each answer. Status and finalizer writes
carry the whole object as it was last read, with the changed part in place.
-/
namespace HostPorts

inductive Request where
  | get (kind : Kind) (ref : ObjectRef)
  | list (kind : Kind)
  | listPods (namespace_ : String)
  | createPort (port : Port)
  | updateStatus (kind : Kind) (object : Object kind)
  | updateFinalizers (kind : Kind) (object : Object kind)
  | deletePort (port : Port)

@[reducible] def Request.Answer : Request → Type
  | .get k _ => Object k
  | .list k => List (Object k)
  | .listPods _ => List Pod
  | .createPort _ => Port
  | .updateStatus k _ => Object k
  | .updateFinalizers k _ => Object k
  | .deletePort _ => Unit

end HostPorts
