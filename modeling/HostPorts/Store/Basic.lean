import HostPorts.Pass
import HostPorts.Store.Table

/-!
An in-memory store of all kinds. One counter gives versions to the objects of every kind, another
gives uids. Requests count as writes when they try to change something; what users do by
`insert` and `delete` does not count.
-/
namespace HostPorts

structure Store where
  classes : Table .portClass := SortedMap.empty
  pools : Table .portPool := SortedMap.empty
  claims : Table .portClaim := SortedMap.empty
  ports : Table .port := SortedMap.empty
  pods : Table .pod := SortedMap.empty
  /-- The last version given out, and the number of uids given out. -/
  version : Nat := 0
  created : Nat := 0
  writes : Nat := 0
  /-- Whether the next status write is to fail. -/
  failNextStatusWrite : Bool := false
  deriving DecidableEq

namespace Store

def table (s : Store) : (k : Kind) → Table k
  | .portClass => s.classes
  | .portPool => s.pools
  | .portClaim => s.claims
  | .port => s.ports
  | .pod => s.pods

def withTable (s : Store) : (k : Kind) → Table k → Store
  | .portClass, t => { s with classes := t }
  | .portPool, t => { s with pools := t }
  | .portClaim, t => { s with claims := t }
  | .port, t => { s with ports := t }
  | .pod, t => { s with pods := t }

@[simp] theorem table_withTable (s : Store) (k : Kind) (t : Table k) :
    (s.withTable k t).table k = t := by cases k <;> rfl

theorem table_withTable_ne (s : Store) {k k' : Kind} (t : Table k) (ne : k' ≠ k) :
    (s.withTable k t).table k' = s.table k' := by
  cases k <;> cases k' <;> first | rfl | exact absurd rfl ne

def uidOf (n : Nat) : String :=
  let digits := Nat.toDigits 10 n
  "00000000-0000-4000-8000-" ++
    String.ofList (List.replicate (12 - digits.length) '0' ++ digits)

def versionOf (n : Nat) : String := toString n

def nextVersion (s : Store) : String := versionOf (s.version + 1)

def nextIdentity (s : Store) (now : Timestamp) : Identity :=
  ⟨uidOf (s.created + 1), s.nextVersion, now⟩

/-- Creation as such, without counting a write. -/
def insert (now : Timestamp) {k : Kind} (o : Object k) (s : Store) :
    Except StoreError (Object k) × Store :=
  match (s.table k).create o (s.nextIdentity now) with
  | .error e => (.error e, s)
  | .ok (stored, t) =>
    (.ok stored, { s.withTable k t with version := s.version + 1, created := s.created + 1 })

def delete (now : Timestamp) (k : Kind) (key : String) (p : Precondition) (s : Store) :
    Except StoreError Unit × Store :=
  match (s.table k).delete key p s.nextVersion now with
  | .error e => (.error e, s)
  | .ok .removed => (.ok (), s.withTable k ((s.table k).erase key))
  | .ok .alreadyMarked => (.ok (), s)
  | .ok (.marked o) =>
    (.ok (), { s.withTable k ((s.table k).insert key o) with version := s.version + 1 })

def update {k : Kind} (o : Object k) (write : Object k → Object k) (s : Store) :
    Except StoreError (Object k) × Store :=
  match (s.table k).update o s.nextVersion write with
  | .error e => (.error e, s)
  | .ok (updated, t) => (.ok updated, { s.withTable k t with version := s.version + 1 })

def countWrite (s : Store) : Store := { s with writes := s.writes + 1 }

def updateStatus {k : Kind} (o : Object k) (s : Store) : Except StoreError (Object k) × Store :=
  if s.failNextStatusWrite then
    (.error (.conflict k o.displayName), { s with failNextStatusWrite := false })
  else s.countWrite.update o fun current => { current with status := o.status }

def updateFinalizers {k : Kind} (o : Object k) (s : Store) :
    Except StoreError (Object k) × Store :=
  s.countWrite.update o fun current =>
    { current with
      metadata := { current.metadata with finalizers := o.metadata.finalizers } }

/-- Deletes the port of that display name if it is still the very object given. -/
def deletePort (now : Timestamp) (port : Port) (s : Store) : Except StoreError Unit × Store :=
  s.countWrite.delete now .port port.displayName
    ⟨port.metadata.uid, port.metadata.resourceVersion⟩

def answer (now : Timestamp) : (r : Request) → Store → r.Reply × Store
  | .get k ref, s => ((s.table k).get ref.key, s)
  | .list k, s => (.ok (s.table k).values, s)
  | .listPods ns, s =>
    (.ok (s.pods.values.filter fun p => p.metadata.namespace_ = some ns), s)
  | .createPort port, s => s.countWrite.insert now port
  | .updateStatus _ o, s => s.updateStatus o
  | .updateFinalizers _ o, s => s.updateFinalizers o
  | .deletePort port, s => s.deletePort now port

def run {α : Type} (now : Timestamp) (p : Pass α) (s : Store) : α × Store := p.run (answer now) s

end Store
end HostPorts
