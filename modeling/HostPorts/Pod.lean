import HostPorts.Json.Basic

/-!
The part of a pod's specification that matters here: containers and their ports.
-/
namespace HostPorts

structure ContainerPort where
  containerPort : Int
  hostPort : Option Int
  name : Option String
  deriving DecidableEq

structure Container where
  name : String
  ports : Option (List ContainerPort)
  deriving DecidableEq

structure PodSpec where
  containers : List Container
  initContainers : Option (List Container)
  deriving DecidableEq

def ContainerPort.read? (j : Json) : Option ContainerPort := do
  let m ← j.members?
  return {
    containerPort := (← m.optional "containerPort" Json.int32?).getD 0
    hostPort := ← m.optional "hostPort" Json.int32?
    name := ← m.optional "name" Json.str? }

def ContainerPort.write (p : ContainerPort) : Json :=
  .obj ([("containerPort", .int p.containerPort)] ++ Json.member "hostPort" .int p.hostPort ++
    Json.member "name" .str p.name)

def Container.read? (j : Json) : Option Container := do
  let m ← j.members?
  return {
    name := (← m.optional "name" Json.str?).getD ""
    ports := ← m.optional "ports" (Json.list? ContainerPort.read?) }

def Container.write (c : Container) : Json :=
  .obj ([("name", .str c.name)] ++
    Json.member "ports" (fun ps => .arr (ps.map ContainerPort.write)) c.ports)

def PodSpec.read? (j : Json) : Option PodSpec := do
  let m ← j.members?
  return {
    containers := (← m.optional "containers" (Json.list? Container.read?)).getD []
    initContainers := ← m.optional "initContainers" (Json.list? Container.read?) }

def PodSpec.write (s : PodSpec) : Json :=
  .obj ([("containers", .arr (s.containers.map Container.write))] ++
    Json.member "initContainers" (fun cs => .arr (cs.map Container.write)) s.initContainers)

end HostPorts
