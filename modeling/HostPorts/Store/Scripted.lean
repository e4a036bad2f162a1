import HostPorts.Object.Codec
import HostPorts.Store.Basic

/-!
A store some of whose replies are laid down beforehand. A laid-down reply takes the place of the
next request of its method, which then does not reach the store.
-/
namespace HostPorts

inductive Method where
  | get (kind : Kind)
  | list (kind : Kind)
  | listPods
  | createPort
  | updateStatus (kind : Kind)
  | updateFinalizers (kind : Kind)
  | deletePort
  deriving DecidableEq

def Request.method : Request → Method
  | .get k _ => .get k
  | .list k => .list k
  | .listPods _ => .listPods
  | .createPort _ => .createPort
  | .updateStatus k _ => .updateStatus k
  | .updateFinalizers k _ => .updateFinalizers k
  | .deletePort _ => .deletePort

def Request.readAnswer? : (r : Request) → Json → Option r.Answer
  | .get k _, j => Object.read? k j
  | .list k, j => j.list? (Object.read? k)
  | .listPods _, j => j.list? (Object.read? .pod)
  | .createPort _, j => Object.read? .port j
  | .updateStatus k _, j => Object.read? k j
  | .updateFinalizers k _, j => Object.read? k j
  | .deletePort _, .null => some ()
  | .deletePort _, _ => none

inductive LaidDown where
  | returns (value : Json)
  | fails (error : StoreError)

/-- A value that does not fit the request is an error of its own. -/
def LaidDown.reply (l : LaidDown) (r : Request) : r.Reply :=
  match l with
  | .fails e => .error e
  | .returns j =>
    match r.readAnswer? j with
    | some a => .ok a
    | none => .error .serialization

structure ScriptedStore where
  store : Store := {}
  /-- In the order in which they are used up. -/
  script : List (Method × LaidDown) := []

namespace ScriptedStore

def take (method : Method) : List (Method × LaidDown) → Option (LaidDown × List (Method × LaidDown))
  | [] => none
  | (m, l) :: rest =>
    if m = method then some (l, rest)
    else (take method rest).map fun (found, rest) => (found, (m, l) :: rest)

def answer (now : Timestamp) (r : Request) (s : ScriptedStore) : r.Reply × ScriptedStore :=
  match take r.method s.script with
  | some (l, script) => (l.reply r, { s with script := script })
  | none =>
    let (reply, store) := Store.answer now r s.store
    (reply, { s with store := store })

def run {α : Type} (now : Timestamp) (p : Pass α) (s : ScriptedStore) : α × ScriptedStore :=
  p.run (answer now) s

def lay (method : Method) (l : LaidDown) (s : ScriptedStore) : ScriptedStore :=
  { s with script := s.script ++ [(method, l)] }

end ScriptedStore
end HostPorts
