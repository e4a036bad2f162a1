import HostPorts.Object.Codec
import HostPorts.Store.Basic

/-!
What differs between two states of a store. Pods without a namespace are not shown.
-/
namespace HostPorts

def shownKey (k : Kind) (key : String) : String := k.name ++ "/" ++ key

def isShown {k : Kind} (o : Object k) : Bool := k ≠ .pod || o.metadata.namespace_.isSome

namespace Table

/-- Each shown key whose object is new, different or gone, with the object it now has. -/
def changes {k : Kind} (differ : Object k → Object k → Bool) (before after : Table k) :
    List (String × Option (Object k)) :=
  let written := after.entries.filterMap fun (key, o) =>
    match before.find? key with
    | some old => if differ old o && isShown o then some (key, some o) else none
    | none => if isShown o then some (key, some o) else none
  let gone := before.entries.filterMap fun (key, o) =>
    if (after.find? key).isNone && isShown o then some (key, none) else none
  written ++ gone

end Table

namespace Store

def changes (differ : {k : Kind} → Object k → Object k → Bool)
    (write : {k : Kind} → Object k → Json) (before after : Store) : Members :=
  Kind.all.flatMap fun k =>
    ((before.table k).changes differ (after.table k)).map fun (key, o) =>
      (shownKey k key, (o.map write).getD .null)

def allChanges (before after : Store) : Members :=
  changes (fun a b => a ≠ b) Object.write before after

def withoutVersion {k : Kind} (o : Object k) : Object k :=
  { o with metadata := { o.metadata with resourceVersion := none } }

/-- Differences in the version do not count, and it is not shown. -/
def contentChanges (before after : Store) : Members :=
  changes (fun a b => withoutVersion a ≠ withoutVersion b) (fun o => (withoutVersion o).write)
    before after

end Store
end HostPorts
