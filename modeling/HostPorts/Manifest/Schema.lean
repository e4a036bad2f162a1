import HostPorts.Json.Basic

/-!
Schemas of structured values, as the API server checks them. A schema is written as a JSON object
with its keywords in alphabetical order.
-/
namespace HostPorts

/-- What is taken for a field that is not given: a field is refused without it, may be `null`, has a
default value, or is simply left out. -/
inductive Presence where
  | required
  | nullable
  | defaulted (value : Json)
  | omittable

structure Field (σ : Type) where
  name : String
  about : Option String
  presence : Presence
  schema : σ

/-- A vocabulary and a record carry a description of their own, which gives way to that of the
field in which they stand. -/
inductive Schema where
  | text
  | moment
  | flag
  | port (least : Nat)
  | vocabulary (about : String) (words : List String)
  | list (item : Schema)
  | record (about : Option String) (fields : List (Field Schema))

namespace Schema

def ordered (members : Members) : Json := .obj (SortedMap.ofList members).entries

def described (about : Option String) (members : Members) : Members :=
  members ++ Json.member "description" .str about

def requiredNames (fields : List (Field Schema)) : List String :=
  (SortedMap.ofList (fields.filterMap fun f =>
    match f.presence with
    | .required => some (f.name, ())
    | _ => none)).keys

def typed (word : String) : Members := [("type", .str word)]

def orNull (members : Members) : Members :=
  [("anyOf", .arr [ordered members,
    ordered [("enum", .arr [.null]), ("nullable", .bool true)]])]

def withPresence (presence : Presence) (schema : Schema) (members : Members) : Members :=
  match presence, schema with
  | .nullable, .vocabulary .. => orNull members
  | .nullable, _ => members ++ [("nullable", .bool true)]
  | .defaulted value, _ => members ++ [("default", value)]
  | .required, _ | .omittable, _ => members

mutual

def keywords : Schema → Members
  | .text => typed "string"
  | .moment => ("format", .str "date-time") :: typed "string"
  | .flag => typed "boolean"
  | .port least =>
    [("format", .str "uint16"), ("minimum", .real least 0), ("maximum", .real 65535 0)] ++
      typed "integer"
  | .vocabulary about words =>
    described (some about) (("enum", Json.ofStrings words) :: typed "string")
  | .list item => ("items", ordered item.keywords) :: typed "array"
  | .record about fields =>
    described about
      ((if fields.isEmpty then [] else [("properties", ordered (properties fields))]) ++
        (match requiredNames fields with
        | [] => []
        | names => [("required", Json.ofStrings names)]) ++ typed "object")

def properties : List (Field Schema) → Members
  | [] => []
  | ⟨name, about, presence, schema⟩ :: rest =>
    let members := described about (withPresence presence schema schema.keywords)
    (name, ordered members) :: properties rest

end

def write (s : Schema) : Json := ordered s.keywords

end Schema
end HostPorts
