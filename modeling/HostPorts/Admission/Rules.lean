import HostPorts.Admission.Injection
import HostPorts.Admission.Review
import HostPorts.Admission.Validation

/-!
The answer to each kind of review. Mutating reviews attach tokens to new objects and inject ports
into new pods; validating reviews deny writes that break a rule.
-/
namespace HostPorts.Admission

def Response.judge (r : Response) (errors : List FieldError) : Response :=
  if errors = [] then r else r.deny (FieldError.denial errors)

/-- Only a new object that is not under deletion and lacks its token is changed. -/
def protect {k : Kind} (token : ProtectionToken) (r : Response) (q : Query k) : Response :=
  match q.operation, q.object with
  | .create, some o =>
    if o.isBeingDeleted then r
    else
      match token.attach o.metadata with
      | (true, metadata) => r.withDiff o { o with metadata := metadata }
      | (false, _) => r
  | _, _ => r

/-- Updates pass untouched, so that pods can always be finalized. -/
def mutatePod (prefixes : AnnotationPrefixes) (r : Response) (q : Query .pod) : Pass Response :=
  match q.operation, q.object with
  | .create, some (p : Pod) =>
    let ns := (q.namespace_ <|> p.metadata.namespace_).getD ""
    (Injection.inject prefixes ns p).bind fun
      | .ok changed => .done (r.withDiff p changed)
      | .error errors => .done (r.judge errors)
  | _, _ => .done r

def mutate (prefixes : AnnotationPrefixes) (k : Kind) (r : Response) (q : Query k) :
    Pass Response :=
  match k, q with
  | .pod, q => mutatePod prefixes r q
  | .portClass, q => .done (protect .ofClass r q)
  | .portPool, q => .done (protect .ofPool r q)
  | .portClaim, q => .done (protect .ofClaim r q)
  | .port, q => .done (protect .ofPort r q)

def validatePool (r : Response) (q : Query .portPool) : Pass Response :=
  let check (p : PortPool) : Pass Response :=
    .call (.list .portPool) fun
      | .ok (pools : List PortPool) => .done (r.judge (p.errors pools))
      | .error e => .done (r.judge [FieldError.internal "spec" e.message])
  match q.operation, q.object with
  | .create, some p | .update, some p => check p
  | _, _ => .done r

def claimErrors (q : Query .portClaim) : List FieldError :=
  match q.operation, q.object, q.oldObject with
  | .update, some (new : PortClaim), some old => new.updateErrors old
  | _, _, _ => []

def portErrors (q : Query .port) : List FieldError :=
  match q.operation, q.object with
  | .create, some (new : Port) => new.errors none
  | .update, some (new : Port) => new.errors q.oldObject
  | _, _ => []

def validate (k : Kind) (r : Response) (q : Query k) : Pass Response :=
  match k, q with
  | .portPool, q => validatePool r q
  | .portClaim, q => .done (r.judge (claimErrors q))
  | .port, q => .done (r.judge (portErrors q))
  | .portClass, _ => .done r
  | .pod, _ => .done r

inductive Action where
  | mutate
  | validate
  deriving DecidableEq

def respond (prefixes : AnnotationPrefixes) (action : Action) (k : Kind) (review : Review k) :
    Pass Response :=
  match review.query with
  | none => .done .invalid
  | some q =>
    match action with
    | .mutate => mutate prefixes k (.allow review q) q
    | .validate => validate k (.allow review q) q

end HostPorts.Admission
