import HostPorts.Api.Http
import HostPorts.Api.StatusLine
import HostPorts.Object.Codec
import HostPorts.Store.Request
import HostPorts.Pass

/-!
A store behind an API server: every request of a pass becomes at most one HTTP request. Writes are
merge patches whose version makes the server refuse them if the object has changed since.
-/
namespace HostPorts.Api

def collection (k : Kind) (namespace_ : Option String) : String :=
  (if k.group = "" then "/api/" else "/apis/" ++ k.group ++ "/") ++ k.version ++ "/" ++
    (match namespace_ with
      | some ns => "namespaces/" ++ ns ++ "/"
      | none => "") ++ k.plural

/-- Claims are looked up in their own namespace, whichever that is. -/
def namespaceOf {k : Kind} (o : Object k) : Option String :=
  if k.isNamespaced then some (o.metadata.namespace_.getD "") else none

structure Exchange (α : Type) where
  kind : Kind
  name : String
  request : Except ApiFailure HttpRequest
  read : Json → Option α

def build (method target : String) (contentType : Option String) (body : Option Json) :
    Except ApiFailure HttpRequest :=
  match target? target with
  | some t => .ok ⟨method, t, contentType, body⟩
  | none => .error .unfitPath

def buildNamed (method base name suffix : String) (contentType : Option String)
    (body : Option Json) : Except ApiFailure HttpRequest :=
  if name = "" then .error .unnamed
  else build method (base ++ "/" ++ name ++ suffix ++ "?") contentType body

def listItems? {α : Type} (item : Json → Option α) (j : Json) : Option (List α) := do
  let m ← j.members?
  let _ ← m.defaulted "metadata" () fun j => j.members?.map fun _ => ()
  let items ← m.required "items" (Json.nullable? (Json.list? item))
  return items.getD []

/-- The answer to a deletion: a status, or the object that is going. -/
def readDeletion? (j : Json) : Option Unit :=
  match (j.members?.getD []).find? "kind" with
  | some (.str "Status") => do
    let m ← j.members?
    let _ ← m.optional "status" fun j =>
      (Json.word? j).bind fun w => if w = "Success" ∨ w = "Failure" then some w else none
    let _ ← m.defaulted "code" 0 (Json.natBelow? 65536)
    let _ ← m.defaulted "message" "" Json.str?
    let _ ← m.defaulted "reason" "" Json.str?
    return ()
  | _ => (Object.read? .port j).map fun _ => ()

def objectName {k : Kind} (o : Object k) : Except StoreError String :=
  match o.metadata.name with
  | some name => .ok name
  | none => .error (.invalidObject (k.name ++ " without metadata.name"))

def objectVersion {k : Kind} (o : Object k) (name : String) : Except StoreError String :=
  match o.metadata.resourceVersion with
  | some version => .ok version
  | none =>
    .error (.invalidObject (name ++ " has no resourceVersion; re-read before writing"))

def statusPatch {k : Kind} (o : Object k) (version : String) : Json :=
  .obj [("metadata", .obj [("resourceVersion", .str version)]),
    ("status", (o.status.map k.writeStatus).getD .null)]

def finalizersPatch {k : Kind} (o : Object k) (version : String) : Json :=
  .obj [("metadata", .obj [("finalizers", Json.ofStrings o.metadata.finalizerList),
    ("resourceVersion", .str version)])]

def patchType : Option String := some "application/merge-patch+json"

def plainType : Option String := some "application/json"

def patchExchange {k : Kind} (o : Object k) (suffix : String) (body : String → Json) :
    Except StoreError (Exchange (Object k)) := do
  let name ← objectName o
  let version ← objectVersion o name
  return ⟨k, name,
    buildNamed "PATCH" (collection k (namespaceOf o)) name suffix patchType (some (body version)),
    Object.read? k⟩

def preconditions (p : Port) : Json :=
  .obj [("preconditions", .obj (Json.member "resourceVersion" .str p.metadata.resourceVersion ++
    Json.member "uid" .str p.metadata.uid))]

/-- The HTTP exchange behind a request; an object that lacks what is needed is refused first. -/
def exchange : (r : Request) → Except StoreError (Exchange r.Answer)
  | .get k ref => .ok ⟨k, ref.name,
      buildNamed "GET" (collection k ref.namespace_) ref.name "" none none, Object.read? k⟩
  | .list k => .ok ⟨k, "*", build "GET" (collection k none ++ "?") none none,
      listItems? (Object.read? k)⟩
  | .listPods ns => .ok ⟨.pod, "*", build "GET" (collection .pod (some ns) ++ "?") none none,
      listItems? (Object.read? .pod)⟩
  | .createPort p => do
    let name ← objectName p
    return ⟨.port, name,
      build "POST" (collection .port none ++ "?") plainType (some p.write), Object.read? .port⟩
  | .updateStatus _ o => patchExchange o "/status" (statusPatch o)
  | .updateFinalizers _ o => patchExchange o "" (finalizersPatch o)
  | .deletePort p => do
    let name ← objectName p
    return ⟨.port, name,
      buildNamed "DELETE" (collection .port none) name "" plainType (some (preconditions p)),
      readDeletion?⟩

/-- The failure described by the answer of an unwilling server; a body that describes none is
kept as a message. -/
def refusal (status : Nat) (body : String) : ApiFailure :=
  let described := (Json.read? body).bind fun j => do
    let m ← j.record? ["status", "message", "reason", "code"] 4
    return ApiFailure.refused (← m.required "status" Json.str?)
      (← m.defaulted "message" "" Json.str?) (← m.defaulted "reason" "" Json.str?)
      (← m.required "code" (Json.natBelow? 65536))
  described.getD
    (.refused (statusLine status) (Text.quoted body) "Failed to parse error data" status)

def readAnswer {α : Type} (read : Json → Option α) : Option HttpAnswer → Except ApiFailure α
  | none | some .failure => .error .unreachable
  | some (.reply status body) =>
    if 400 ≤ status then .error (refusal status body)
    else
      match (Json.read? body).bind read with
      | some a => .ok a
      | none => .error .unreadable

/-- What a server will answer, and what it has been sent so far, newest first. -/
structure Connection where
  answers : List HttpAnswer := []
  sent : List HttpRequest := []

def Connection.answer (r : Request) (c : Connection) : r.Reply × Connection :=
  match exchange r with
  | .error e => (.error e, c)
  | .ok x =>
    match x.request with
    | .error failure => (.error (.ofApi failure x.kind x.name), c)
    | .ok http =>
      ((readAnswer x.read c.answers.head?).mapError fun f => .ofApi f x.kind x.name,
        ⟨c.answers.tail, http :: c.sent⟩)

def Connection.run {α : Type} (p : Pass α) (c : Connection) : α × Connection := p.run answer c

end HostPorts.Api
