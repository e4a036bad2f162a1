import HostPorts.Manifest.Schema
import HostPorts.Manifest.Yaml
import HostPorts.Object.Codec

/-!
The definitions by which a cluster learns of the four host port kinds: names, columns of listings
and the schema of each.
-/
namespace HostPorts

structure Column where
  name : String
  type : String
  path : String

def Column.write (c : Column) : Json :=
  .obj [("jsonPath", .str c.path), ("name", .str c.name), ("type", .str c.type)]

def Condition.schema : Schema := .record (some "A single named status condition") [
  ⟨"type", some "Condition type, unique within a list (e.g. \"Overlap\")", .required, .text⟩,
  ⟨"status", some "Current status of the condition", .required,
    .vocabulary "Tri-state condition status"
      ([ConditionStatus.true_, .false_, .unknown].map ConditionStatus.word)⟩,
  ⟨"reason", some "Machine readable reason for the last transition", .defaulted (.str ""), .text⟩,
  ⟨"message", some "Human readable detail", .defaulted (.str ""), .text⟩,
  ⟨"lastTransitionTime", some "When the status last changed", .nullable, .moment⟩]

def ClaimReference.schema : Schema :=
  .record (some "Identity of the PortClaim a Port is bound to.") [
    ⟨"namespace", some "Namespace of the claim", .required, .text⟩,
    ⟨"name", some "Name of the claim", .required, .text⟩,
    ⟨"uid", some "UID of the claim at the time the Port was created", .required, .text⟩]

namespace Kind

def shortName : Kind → String
  | .portClass => "hpcl"
  | .portPool => "hpp"
  | .portClaim => "hpc"
  | .port => "hp"
  | .pod => "po"

def columns : Kind → List Column
  | .portClass => [⟨"Phase", "string", ".status.phase"⟩,
      ⟨"Age", "date", ".metadata.creationTimestamp"⟩]
  | .portPool => [⟨"Class", "string", ".spec.classRef"⟩, ⟨"Start", "integer", ".spec.start"⟩,
      ⟨"End", "integer", ".spec.end"⟩, ⟨"Enabled", "boolean", ".spec.enabled"⟩,
      ⟨"Phase", "string", ".status.phase"⟩]
  | .portClaim => [⟨"Class", "string", ".spec.classRef"⟩,
      ⟨"Port", "string", ".status.boundPortName"⟩, ⟨"Phase", "string", ".status.phase"⟩]
  | .port => [⟨"Class", "string", ".spec.classRef"⟩, ⟨"Port", "integer", ".status.port"⟩,
      ⟨"Pool", "string", ".status.poolName"⟩, ⟨"Claim", "string", ".spec.claimRef.name"⟩,
      ⟨"Phase", "string", ".status.phase"⟩]
  | .pod => []

def classRefField (about : String) : Field Schema := ⟨"classRef", some about, .required, .text⟩

def specSchema : Kind → Schema
  | .portClass | .pod => .record none []
  | .portPool => .record none [
      classRefField "Name of the owning PortClass",
      ⟨"start", some "First port of the range (inclusive)", .required, .port 1⟩,
      ⟨"end", some "Last port of the range (inclusive)", .required, .port 1⟩,
      ⟨"enabled", some "Disabled pools stay Ready but are skipped by the allocator",
        .defaulted (.bool true), .flag⟩]
  | .portClaim => .record none [classRefField "Name of the PortClass to allocate from"]
  | .port => .record none [
      ⟨"claimRef", some "Claim this port is bound to", .nullable, ClaimReference.schema⟩,
      classRefField "Name of the PortClass to allocate from"]

def phaseField (k : Kind) : Field Schema :=
  ⟨"phase", some "Lifecycle phase", .nullable,
    .vocabulary (k.name ++ " lifecycle phase")
      ([Phase.pending, .settled, .deleting].map (Phase.word k))⟩

def statusSchema (k : Kind) : Schema := .record none (k.phaseField :: match k with
  | .portPool => [⟨"conditions", some "Status conditions (currently only \x60Overlap\x60)",
      .omittable, .list Condition.schema⟩]
  | .portClaim => [⟨"boundPortName",
      some "Name of the backing Port, set together with the \x60Bound\x60 phase", .nullable, .text⟩]
  | .port => [⟨"port", some "Allocated port, 0 while unset", .defaulted (.int 0), .port 0⟩,
      ⟨"poolName", some "Pool the port was taken from", .nullable, .text⟩]
  | .portClass | .pod => [])

def schema (k : Kind) : Schema :=
  .record (some ("Auto-generated derived type for " ++ k.name ++ "Spec via \x60CustomResource\x60"))
    [⟨"spec", none, .required, k.specSchema⟩, ⟨"status", none, .nullable, k.statusSchema⟩]

def scopeWord (k : Kind) : String := if k.isNamespaced then "Namespaced" else "Cluster"

def versionEntry (k : Kind) : Json := .obj [
  ("additionalPrinterColumns", .arr (k.columns.map Column.write)),
  ("name", .str k.version),
  ("schema", .obj [("openAPIV3Schema",
    Schema.ordered (("title", .str k.name) :: k.schema.keywords))]),
  ("served", .bool true),
  ("storage", .bool true),
  ("subresources", .obj [("status", .obj [])])]

def definition (k : Kind) : Json := .obj [
  ("apiVersion", .str "apiextensions.k8s.io/v1"),
  ("kind", .str "CustomResourceDefinition"),
  ("metadata", .obj [("name", .str (k.plural ++ "." ++ k.group))]),
  ("spec", .obj [
    ("group", .str k.group),
    ("names", .obj [
      ("categories", .arr []),
      ("kind", .str k.name),
      ("plural", .str k.plural),
      ("shortNames", Json.ofStrings [k.shortName]),
      ("singular", .str (k.name.map Char.toLower))]),
    ("scope", .str k.scopeWord),
    ("versions", .arr [k.versionEntry])])]

end Kind

def manifests : String := String.join (Kind.reconciled.map fun k => Yaml.document k.definition)

end HostPorts
