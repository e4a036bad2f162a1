import HostPorts.Dependency
import HostPorts.Retry
import HostPorts.Scenario.Step

/-!
Controllers on virtual time. Every change to the store is seen by the watches at the next tick; it
triggers passes for the object itself and for those it concerns, and a failed pass is due again
after its delay. A trigger replaces a wait, and what is due for an object that is gone is dropped.
-/
namespace HostPorts.Watch

open Scenario

structure Target where
  kind : Kind
  ref : ObjectRef
  deriving DecidableEq

def tick : Nat := 10

structure Controllers where
  world : ScriptedStore := {}
  failures : FailureLog := SortedMap.empty
  /-- The store as the watches have last seen it. -/
  seen : Store := {}
  /-- Passes to be run, each at its time, at most one for a target. -/
  due : List (Target × Nat) := []

def concerned (claimPrefix : String) : {k : Kind} → Object k → List Target
  | .portClass, _ => []
  | .portPool, o => (Dependency.poolToClass o).toList.map (⟨.portClass, ·⟩)
  | .portClaim, o => (Dependency.claimToPort o).toList.map (⟨.port, ·⟩)
  | .port, o =>
    (Dependency.portToClass o).toList.map (⟨.portClass, ·⟩) ++
      (Dependency.portToPool o).toList.map (⟨.portPool, ·⟩) ++
      (Dependency.portToClaim o).toList.map (⟨.portClaim, ·⟩)
  | .pod, o => (Dependency.podToClaims o claimPrefix).map (⟨.portClaim, ·⟩)

def triggersOfKind (claimPrefix : String) (k : Kind) (before after : Store) : List Target :=
  ((after.table k).entries.flatMap fun (key, o) =>
    if (before.table k).find? key = some o then []
    else ⟨k, o.ref⟩ :: concerned claimPrefix o) ++
  ((before.table k).entries.flatMap fun (key, o) =>
    if ((after.table k).find? key).isSome then [] else concerned claimPrefix o)

def triggers (claimPrefix : String) (before after : Store) : List Target :=
  Kind.all.flatMap fun k => triggersOfKind claimPrefix k before after

/-- Makes a target due at a time, unless it is due earlier. -/
def schedule (time : Nat) (t : Target) : List (Target × Nat) → List (Target × Nat)
  | [] => [(t, time)]
  | (t', time') :: rest =>
    if t' = t then (t, min time time') :: rest else (t', time') :: schedule time t rest

def known (seen : Store) (t : Target) : Option (Object t.kind) :=
  ((seen.table t.kind).find? t.ref.key).filter fun o => o.ref = t.ref

def runTarget (config : Config) (now : Timestamp) (time : Nat) (c : Controllers) (t : Target) :
    Controllers :=
  match known c.seen t with
  | none => c
  | some o =>
    let setting : Setting := ⟨config.annotations, now⟩
    let key := resourceKey t.kind.name o.metadata.namespace_ o.displayName
    let (outcome, world) := runPass setting t.kind ⟨o.metadata.namespace_, o.displayName⟩ c.world
    let (retry, failures) := FailureLog.conclude config c.failures key outcome
    let due :=
      match retry.seconds? with
      | none => c.due
      | some seconds => schedule (time + 1000 * seconds) t c.due
    { c with world := world, failures := failures, due := due }

def inOrder (targets : List Target) : List Target :=
  Kind.reconciled.flatMap fun k =>
    let keyed := SortedMap.ofList
      ((targets.filter fun t => t.kind = k).map fun t => (t.ref.key, t))
    keyed.values

/-- One look at the store, and all passes that are due by then: the triggered ones before those that
have waited for their time. -/
def step (config : Config) (now : Timestamp) (running : List Kind) (time : Nat)
    (c : Controllers) : Controllers :=
  let triggered := (triggers config.annotations.claim c.seen c.world.store).filter fun t =>
    running.contains t.kind
  let due := c.due.filter fun d => ¬ triggered.contains d.1
  let waited := (due.filter fun d => d.2 ≤ time).map (·.1)
  (inOrder triggered ++ inOrder waited).foldl (runTarget config now time)
    { c with seen := c.world.store, due := due.filter fun d => time < d.2 }

def settle (config : Config) (now : Timestamp) (running : List Kind) (second : Nat)
    (c : Controllers) : Controllers :=
  (List.range (1000 / tick - 1)).foldl
    (fun c i => step config now running (1000 * second + tick * (i + 1)) c) c

end HostPorts.Watch
