/-!
The five kinds of stored object: four that describe host ports, and pods.
-/
namespace HostPorts

inductive Kind where
  | portClass
  | portPool
  | portClaim
  | port
  | pod
  deriving DecidableEq

namespace Kind

def name : Kind → String
  | .portClass => "PortClass"
  | .portPool => "PortPool"
  | .portClaim => "PortClaim"
  | .port => "Port"
  | .pod => "Pod"

def all : List Kind := [.portClass, .portPool, .portClaim, .port, .pod]

def reconciled : List Kind := [.portClass, .portPool, .portClaim, .port]

def ofName? (text : String) : Option Kind := all.find? fun k => k.name = text

def isNamespaced : Kind → Bool
  | .portClaim | .pod => true
  | _ => false

def plural : Kind → String
  | .portClass => "portclasses"
  | .portPool => "portpools"
  | .portClaim => "portclaims"
  | .port => "ports"
  | .pod => "pods"

def group : Kind → String
  | .pod => ""
  | _ => "hostport.microscaler.io"

def version : Kind → String
  | .pod => "v1"
  | _ => "v1alpha1"

def apiVersion (k : Kind) : String :=
  if k.group = "" then k.version else k.group ++ "/" ++ k.version

end Kind
end HostPorts
