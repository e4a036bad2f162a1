import HostPorts.Error
import HostPorts.SocketAddress
import HostPorts.Text.Blank
import HostPorts.Text.Natural

/-!
Settings, read by name through a look-up such as the process environment. An absent name takes its
default; the first fault found is the answer.
-/
namespace HostPorts

/-- The part before the `/` of pod annotation keys: `claim` names a claim, `port` records an
injected number. -/
structure AnnotationPrefixes where
  claim : String
  port : String
  deriving DecidableEq

structure TlsFiles where
  cert : String
  key : String
  deriving DecidableEq

structure Config where
  annotations : AnnotationPrefixes
  webhookEnabled : Bool
  webhookAddress : SocketAddress
  webhookTls : Option TlsFiles
  /-- Concurrent passes per kind. -/
  concurrency : Nat
  backoffMin : Nat
  backoffMax : Nat
  conflictRequeue : Nat
  deriving DecidableEq

namespace Config

def natural (limit : Nat) (chars : List Char) : Except String Nat :=
  (Text.readNatural limit chars).mapError Text.NaturalError.message

def boolean (chars : List Char) : Except String Bool :=
  match String.ofList chars with
  | "true" => .ok true
  | "false" => .ok false
  | _ => .error "provided string was not `true` or `false`"

def address (chars : List Char) : Except String SocketAddress :=
  match SocketAddress.read? chars with
  | some a => .ok a
  | none => .error "invalid socket address syntax"

/-- Reads one setting without the blanks around it. A fault quotes the text as it was given. -/
def setting {α : Type} (lookup : String → Option String) (name : String) (default : α)
    (read : List Char → Except String α) : Except ControllerError α :=
  match lookup name with
  | none => .ok default
  | some raw =>
    (read (Text.trim raw.toList)).mapError fun fault =>
      .invalidConfig (name ++ "=" ++ raw ++ ": " ++ fault)

def readAnnotations (lookup : String → Option String) :
    Except ControllerError AnnotationPrefixes :=
  let claim := (lookup "CLAIM_ANNOTATION_PREFIX").getD "claim.hostport.microscaler.io"
  let port := (lookup "PORT_ANNOTATION_PREFIX").getD "port.hostport.microscaler.io"
  if claim = port then
    .error (.invalidConfig "CLAIM_ANNOTATION_PREFIX and PORT_ANNOTATION_PREFIX must differ")
  else .ok ⟨claim, port⟩

def readTls (lookup : String → Option String) : Except ControllerError (Option TlsFiles) :=
  match lookup "WEBHOOK_CERT_PATH", lookup "WEBHOOK_KEY_PATH" with
  | some cert, some key => .ok (some ⟨cert, key⟩)
  | none, none => .ok none
  | _, _ =>
    .error (.invalidConfig "WEBHOOK_CERT_PATH and WEBHOOK_KEY_PATH must be set together")

def seconds (chars : List Char) : Except String Nat := natural 18446744073709551615 chars

def readBackoff (lookup : String → Option String) : Except ControllerError (Nat × Nat) := do
  let least ← setting lookup "BACKOFF_MIN_SECONDS" 5 seconds
  let greatest ← setting lookup "BACKOFF_MAX_SECONDS" 300 seconds
  if least = 0 ∨ greatest < least then
    throw (.invalidConfig ("backoff bounds must satisfy 0 < min <= max (got " ++
      toString least ++ ".." ++ toString greatest ++ ")"))
  return (least, greatest)

def read (lookup : String → Option String) : Except ControllerError Config := do
  let annotations ← readAnnotations lookup
  let tls ← readTls lookup
  let (least, greatest) ← readBackoff lookup
  let enabled ← setting lookup "WEBHOOK_ENABLED" true boolean
  let address ← setting lookup "WEBHOOK_ADDR" (SocketAddress.any 9443) address
  let concurrency ← setting lookup "RECONCILE_CONCURRENCY" 3 (natural 65535)
  let conflict ← setting lookup "CONFLICT_REQUEUE_SECONDS" 1 seconds
  return ⟨annotations, enabled, address, tls, concurrency, least, greatest, conflict⟩

end Config
end HostPorts
