import HostPorts.Backoff
import HostPorts.Config
import HostPorts.SortedMap

/-!
What is remembered about failing objects. A conflict is retried after a fixed delay and leaves no
trace; any other error advances that object's backoff, and a success forgets it.
-/
namespace HostPorts

structure FailureRecord where
  backoff : Backoff
  errors : Nat
  deriving DecidableEq

abbrev FailureLog := SortedMap FailureRecord

/-- `kind/namespace/name`, with nothing for the namespace of a cluster-wide object. -/
def resourceKey (kind : String) (namespace_ : Option String) (name : String) : String :=
  kind ++ "/" ++ namespace_.getD "" ++ "/" ++ name

/-- When an object gets its next pass: when it changes, or after so many seconds. -/
inductive Retry where
  | onChange
  | afterConflict (seconds : Nat)
  /-- With the number of errors in a row. -/
  | afterErrors (seconds errors : Nat)
  deriving DecidableEq

def Retry.seconds? : Retry → Option Nat
  | .onChange => none
  | .afterConflict seconds | .afterErrors seconds _ => some seconds

namespace FailureLog

def recordOf (config : Config) (log : FailureLog) (key : String) : FailureRecord :=
  (log.find? key).getD ⟨Backoff.start config.backoffMin config.backoffMax, 0⟩

/-- The delay after one more error of the object and its number of errors in a row, which is kept in
32 bits. -/
def fail (config : Config) (log : FailureLog) (key : String) : (Nat × Nat) × FailureLog :=
  let record := recordOf config log key
  let (delay, backoff) := record.backoff.next
  let errors := (record.errors + 1) % 4294967296
  ((delay, errors), log.insert key ⟨backoff, errors⟩)

def succeed (log : FailureLog) (key : String) : FailureLog := log.erase key

def conclude (config : Config) (log : FailureLog) (key : String)
    (outcome : Except ControllerError Unit) : Retry × FailureLog :=
  match outcome with
  | .ok () => (.onChange, log.succeed key)
  | .error e =>
    if e.isConflict then (.afterConflict config.conflictRequeue, log)
    else
      let ((delay, errors), log) := fail config log key
      (.afterErrors delay errors, log)

end FailureLog
end HostPorts
