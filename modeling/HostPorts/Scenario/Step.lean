import HostPorts.Admission.Router
import HostPorts.Reconcile.Reconciler
import HostPorts.Store.Scripted

/-!
Steps of a scenario: what users do to a store, and passes that are run on it from beginning to end.
-/
namespace HostPorts.Scenario

inductive Task where
  | query (p : Pass (Except StoreError Json))
  | reconcile (kind : Kind) (ref : ObjectRef)
  | webhook (request : Admission.HttpRequest)

inductive Step where
  | task (t : Task)
  | insert (kind : Kind) (object : Object kind)
  | delete (kind : Kind) (ref : ObjectRef)
  | has (kind : Kind) (ref : ObjectRef)
  | portCount
  | failNextStatusWrite
  | lay (method : Method) (reply : LaidDown)
  | round
  | reconcilePorts (names : List String)
  | inject (pod : Pod) (namespace_ : String) (store : Bool)

inductive Result where
  | nothing
  | flag (value : Bool)
  | count (value : Nat)
  | answered (reply : Except StoreError Json)
  | passed (outcome : Outcome)
  | passes (outcomes : List Outcome)
  | round (outcomes : List (String × Outcome))
  | http (answer : Admission.HttpAnswer)
  | injected (result : Except (List FieldError) Pod)

structure Setting where
  prefixes : AnnotationPrefixes
  now : Timestamp

def Task.pass (s : Setting) : Task → Pass Result
  | .query p => p.bind fun reply => .done (.answered reply)
  | .reconcile k ref => (Reconcile.pass s.now s.prefixes.claim k ref).bind fun outcome =>
      .done (.passed outcome)
  | .webhook r => (Admission.handle s.prefixes r).bind fun answer => .done (.http answer)

def runPass (s : Setting) (k : Kind) (ref : ObjectRef) (w : ScriptedStore) :
    Outcome × ScriptedStore :=
  w.run s.now (Reconcile.pass s.now s.prefixes.claim k ref)

def passOver {k : Kind} (s : Setting) : List (String × Object k) → ScriptedStore →
    List (String × Outcome) × ScriptedStore
  | [], w => ([], w)
  | (key, o) :: rest, w =>
    let (outcome, w) := runPass s k o.ref w
    let (outcomes, w) := passOver s rest w
    ((k.name ++ "/" ++ key, outcome) :: outcomes, w)

/-- One pass over every stored object, kind by kind; each kind is listed when its turn comes. -/
def playRound (s : Setting) : List Kind → ScriptedStore →
    List (String × Outcome) × ScriptedStore
  | [], w => ([], w)
  | k :: rest, w =>
    let (outcomes, w) := passOver s (w.store.table k).entries w
    let (more, w) := playRound s rest w
    (outcomes ++ more, w)

/-- Passes over ports one after the other. They exclude each other while they allocate, so that
running them at once comes to the same. -/
def passPorts (s : Setting) : List String → ScriptedStore → List Outcome × ScriptedStore
  | [], w => ([], w)
  | name :: rest, w =>
    let (outcome, w) := runPass s .port ⟨none, name⟩ w
    let (outcomes, w) := passPorts s rest w
    (outcome :: outcomes, w)

def Step.play (s : Setting) (step : Step) (w : ScriptedStore) : Result × ScriptedStore :=
  match step with
  | .task t => w.run s.now (t.pass s)
  | .insert _ o => (.nothing, { w with store := (Store.insert s.now o w.store).2 })
  | .delete k ref =>
    let (reply, store) := Store.delete s.now k ref.key {} w.store
    (.answered (reply.map fun _ => .null), { w with store := store })
  | .has k ref => (.flag ((w.store.table k).find? ref.key).isSome, w)
  | .portCount => (.count w.store.ports.size, w)
  | .failNextStatusWrite =>
    (.nothing, { w with store := { w.store with failNextStatusWrite := true } })
  | .lay method reply => (.nothing, w.lay method reply)
  | .round =>
    let (outcomes, w) := playRound s Kind.reconciled w
    (.round outcomes, w)
  | .reconcilePorts names =>
    let (outcomes, w) := passPorts s names w
    (.passes outcomes, w)
  | .inject pod ns store =>
    let (result, w) := w.run s.now (Injection.inject s.prefixes ns pod)
    match result, store with
    | .ok changed, true =>
      (.injected result, { w with store := (Store.insert s.now changed w.store).2 })
    | _, _ => (.injected result, w)

end HostPorts.Scenario
