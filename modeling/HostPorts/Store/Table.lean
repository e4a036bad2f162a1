import HostPorts.Error
import HostPorts.Object

/-!
The stored objects of one kind, by key, with the write rules of an API server: creation gives a
fresh identity, a write must carry the current version, and an object under deletion goes away with
its last finalizer.
-/
namespace HostPorts

abbrev Table (k : Kind) := SortedMap (Object k)

/-- What an API server adds to an object on creation. -/
structure Identity where
  uid : String
  version : String
  created : Timestamp

def Object.withVersion {k : Kind} (o : Object k) (version : String) : Object k :=
  { o with metadata := { o.metadata with resourceVersion := some version } }

/-- As stored on creation: a deletion request on the new object is dropped. -/
def Object.identified {k : Kind} (o : Object k) (i : Identity) : Object k :=
  { o with
    metadata := { o.metadata with
      uid := some i.uid
      resourceVersion := some i.version
      creationTimestamp := some i.created
      deletionTimestamp := none } }

/-- Under deletion and no longer held by any finalizer. -/
def Object.isPurged {k : Kind} (o : Object k) : Bool :=
  o.isBeingDeleted && o.metadata.finalizerList.isEmpty

/-- Uid and version that a deletion asks for; what is absent is not asked for. -/
structure Precondition where
  uid : Option String := none
  version : Option String := none

def Precondition.holds {k : Kind} (p : Precondition) (o : Object k) : Bool :=
  p.uid.all (fun u => o.metadata.uid = some u) &&
    p.version.all (fun v => o.metadata.resourceVersion = some v)

namespace Table

variable {k : Kind}

def get (t : Table k) (key : String) : Except StoreError (Object k) :=
  match t.find? key with
  | some o => .ok o
  | none => .error (.notFound k key)

def create (t : Table k) (o : Object k) (i : Identity) : Except StoreError (Object k × Table k) :=
  if (t.find? o.key).isSome then .error (.alreadyExists k o.key)
  else .ok (o.identified i, t.insert o.key (o.identified i))

def update (t : Table k) (o : Object k) (version : String) (write : Object k → Object k) :
    Except StoreError (Object k × Table k) :=
  match t.find? o.key with
  | none => .error (.notFound k o.key)
  | some current =>
    if current.metadata.resourceVersion ≠ o.metadata.resourceVersion then
      .error (.conflict k o.key)
    else
      let updated := (write current).withVersion version
      .ok (updated, if updated.isPurged then t.erase o.key else t.insert o.key updated)

inductive Deletion (k : Kind) where
  | removed
  /-- Finalizers hold the object; it is marked and gets the new version. -/
  | marked (o : Object k)
  | alreadyMarked

def delete (t : Table k) (key : String) (p : Precondition) (version : String) (now : Timestamp) :
    Except StoreError (Deletion k) :=
  match t.find? key with
  | none => .error (.notFound k key)
  | some current =>
    if !p.holds current then .error (.conflict k key)
    else if current.metadata.finalizerList.isEmpty then .ok .removed
    else if current.isBeingDeleted then .ok .alreadyMarked
    else
      .ok (.marked
        { current with
          metadata := { current.metadata with
            deletionTimestamp := some now
            resourceVersion := some version } })

end Table
end HostPorts
