/-!
The order of deletion: record the phase, wait for dependents, release the token. Each step is one
write.
-/
namespace HostPorts

inductive DeletionStep where
  | markDeleting
  | converged
  | checkDependents
  deriving DecidableEq

def DeletionStep.plan (isDeleting holdsToken : Bool) : DeletionStep :=
  if !isDeleting then .markDeleting
  else if !holdsToken then .converged
  else .checkDependents

end HostPorts
