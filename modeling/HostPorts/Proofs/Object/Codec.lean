import HostPorts.Object.Codec
import HostPorts.Proofs.Json.Members
import HostPorts.Proofs.Text.Instant

/-!
Written objects are read back, however their members are arranged: objects that hold the members of
a written value read as that value. The times of metadata are written without their fraction, so
this is so for times in whole seconds; the times of conditions keep theirs.
-/
namespace HostPorts

open Json (Inverts)

theorem OwnerReference.inverts (r : OwnerReference) :
    Inverts OwnerReference.read? OwnerReference.write r := by
  refine ⟨nofun, ?_⟩
  obtain ⟨_, block, controller, _, _, _⟩ := r
  cases block <;> cases controller <;> rfl

namespace Metadata

def WholeSeconds (m : Metadata) : Prop :=
  ∀ t, m.creationTimestamp = some t ∨ m.deletionTimestamp = some t → t.moment.nano = 0

theorem inverts_time {t : Timestamp} (whole : t.moment.nano = 0) :
    Inverts readTime? writeTime t := by
  refine ⟨nofun, ?_⟩
  rw [writeTime, readTime?, Json.str?, Option.bind_some]
  exact Timestamp.read_renderSeconds whole

theorem read_of_alike {m : Metadata} (whole : m.WholeSeconds) {members written : Members}
    (writes : m.write = .obj written) (alike : ∀ name, members.find? name = written.find? name) :
    read? (.obj members) = some m := by
  cases writes
  have text (name : String) (value : Option String)
      (found : members.find? name = value.map .str) :
      members.optional name Json.str? = some value :=
    Members.optional_inverts _ name value found fun a _ => Json.inverts_str a
  have annotations := Members.optional_inverts members "annotations" m.annotations
    (by simp [alike]) fun a _ => Json.inverts_ofStringMap a
  have created := Members.optional_inverts members "creationTimestamp" m.creationTimestamp
    (by simp [alike]) fun t is => inverts_time (whole t (Or.inl is))
  have deleted := Members.optional_inverts members "deletionTimestamp" m.deletionTimestamp
    (by simp [alike]) fun t is => inverts_time (whole t (Or.inr is))
  have finalizers := Members.optional_inverts members "finalizers" m.finalizers
    (by simp [alike]) fun a _ => Json.inverts_ofStrings a
  have generation := Members.optional_inverts members "generation" m.generation
    (by simp [alike]) fun a _ => Json.inverts_ofInt64 a
  have labels := Members.optional_inverts members "labels" m.labels
    (by simp [alike]) fun a _ => Json.inverts_ofStringMap a
  have owners := Members.optional_inverts members "ownerReferences" m.ownerReferences
    (by simp [alike])
    fun a _ => Json.inverts_list fun r _ => OwnerReference.inverts r
  rw [read?, Json.members?, Option.bind_eq_bind, Option.bind_some, annotations, created, deleted,
    finalizers, generation, labels, owners,
    text "generateName" m.generateName (by simp [alike]),
    text "name" m.name (by simp [alike]),
    text "namespace" m.namespace_ (by simp [alike]),
    text "resourceVersion" m.resourceVersion (by simp [alike]),
    text "uid" m.uid (by simp [alike])]
  rfl

end Metadata

theorem Phase.inverts (k : Kind) (p : Phase) : Inverts (Phase.read? k) (Phase.write k) p := by
  refine ⟨nofun, ?_⟩
  cases k <;> cases p <;> rfl

theorem Condition.inverts (c : Condition) : Inverts Condition.read? Condition.write c := by
  refine ⟨nofun, ?_⟩
  obtain ⟨type, status, reason, message, lastTransition⟩ := c
  have time : ∀ t : Timestamp, Inverts readTime? (fun t => .str t.renderExact) t := by
    intro t
    refine ⟨nofun, ?_⟩
    rw [readTime?, Json.str?, Option.bind_some]
    exact Timestamp.read_renderExact t
  have word : Inverts (fun j => (Json.word? j).bind ConditionStatus.ofWord?) (fun s => .str s.word)
      status := by
    refine ⟨nofun, ?_⟩
    cases status <;> rfl
  obtain ⟨known, record, same⟩ := Json.record_obj
    (Json.member "lastTransitionTime" (fun t => .str t.renderExact) lastTransition ++
      [("message", .str message), ("reason", .str reason), ("status", .str status.word),
        ("type", .str type)])
    (by cases lastTransition <;> simp [Json.member])
    ["type", "status", "reason", "message", "lastTransitionTime"] 2
  rw [write, read?, record, Option.bind_eq_bind, Option.bind_some,
    Members.required_inverts (a := type) (by simp [same]) (Json.inverts_str type),
    Members.required_inverts (a := status) (by simp [same]) word,
    Members.defaulted_inverts (a := reason) (by simp [same]) (Json.inverts_str reason),
    Members.defaulted_inverts (a := message) (by simp [same]) (Json.inverts_str message),
    Members.optional_inverts known "lastTransitionTime" lastTransition (by simp [same])
      fun t _ => time t]
  rfl

namespace Kind

variable {k : Kind}

theorem inverts_spec (controlled : k ≠ .pod) (s : k.Spec) :
    Inverts k.readSpec? k.writeSpec s := by
  cases k with
  | portClass => exact ⟨nofun, rfl⟩
  | portPool =>
    refine ⟨nofun, ?_⟩
    obtain ⟨known, record, same⟩ := Json.record_obj
      [("classRef", .str s.classRef), ("enabled", .bool s.enabled),
        ("end", Json.ofUInt16 s.last), ("start", Json.ofUInt16 s.first)]
      (by simp) ["classRef", "start", "end", "enabled"] 3
    rw [writeSpec, readSpec?, record, Option.bind_eq_bind, Option.bind_some,
      Members.required_inverts (a := s.classRef) (by simp [same]) (Json.inverts_str _),
      Members.required_inverts (a := s.first) (by simp [same]) (Json.inverts_ofUInt16 _),
      Members.required_inverts (a := s.last) (by simp [same]) (Json.inverts_ofUInt16 _),
      Members.defaulted_inverts (a := s.enabled) (by simp [same]) (Json.inverts_bool _)]
    rfl
  | portClaim => exact ⟨nofun, rfl⟩
  | port =>
    refine ⟨nofun, ?_⟩
    obtain ⟨claimRef, classRef⟩ := s
    cases claimRef <;> rfl
  | pod => contradiction

@[simp] theorem find_writeConditions (conditions : Conditions) (name : String) :
    (writeConditions conditions).find? name =
      if "conditions" = name ∧ conditions ≠ [] then some (.arr (conditions.map Condition.write))
      else none := by
  cases conditions with
  | nil => simp [writeConditions]
  | cons c rest => simp [writeConditions]

theorem readStatus_of_alike (controlled : k ≠ .pod) {s : k.Status} {members written : Members}
    (distinct : (members.map (·.1)).Nodup) (writes : k.writeStatus s = .obj written)
    (alike : ∀ name, members.find? name = written.find? name) :
    k.readStatus? (.obj members) = some s := by
  have phase {known : Members} {p : Option Phase}
      (found : known.find? "phase" = p.map (Phase.write k)) :
      known.optional "phase" (Phase.read? k) = some p :=
    Members.optional_inverts _ "phase" p found fun p _ => Phase.inverts k p
  have text {known : Members} (name : String) (value : Option String)
      (found : known.find? name = value.map .str) :
      known.optional name Json.str? = some value :=
    Members.optional_inverts _ name value found fun a _ => Json.inverts_str a
  cases k with
  | portClass =>
    cases writes
    obtain ⟨known, record, same⟩ := Json.record_obj members distinct ["phase"] 0
    rw [readStatus?, record, Option.bind_eq_bind, Option.bind_some,
      phase (p := s.phase) (by simp [same, alike])]
    rfl
  | portPool =>
    cases writes
    obtain ⟨known, record, same⟩ := Json.record_obj members distinct ["phase", "conditions"] 0
    have conditions : known.defaulted "conditions" [] (Json.list? Condition.read?) =
        some s.conditions := by
      by_cases empty : s.conditions = []
      · have absent : known.find? "conditions" = none := by simp [same, alike, empty]
        rw [Members.defaulted, absent, empty]
      · have found : known.find? "conditions" =
            some (.arr (s.conditions.map Condition.write)) := by simp [same, alike, empty]
        have inverts : Inverts (Json.list? Condition.read?)
            (fun cs => .arr (cs.map Condition.write)) s.conditions :=
          Json.inverts_list fun c _ => Condition.inverts c
        exact Members.defaulted_inverts found inverts
    rw [readStatus?, record, Option.bind_eq_bind, Option.bind_some,
      phase (p := s.phase) (by simp [same, alike]), conditions]
    rfl
  | portClaim =>
    cases writes
    obtain ⟨known, record, same⟩ := Json.record_obj members distinct ["phase", "boundPortName"] 0
    rw [readStatus?, record, Option.bind_eq_bind, Option.bind_some,
      phase (p := s.phase) (by simp [same, alike]),
      text "boundPortName" s.boundPortName (by simp [same, alike])]
    rfl
  | port =>
    cases writes
    obtain ⟨known, record, same⟩ := Json.record_obj members distinct ["phase", "port", "poolName"] 0
    rw [readStatus?, record, Option.bind_eq_bind, Option.bind_some,
      phase (p := s.phase) (by simp [same, alike]),
      text "poolName" s.poolName (by simp [same, alike]),
      Members.defaulted_inverts (a := s.port) (by simp [same, alike])
        (Json.inverts_ofUInt16 s.port)]
    rfl
  | pod => contradiction

end Kind

theorem Object.read_of_members {k : Kind} (controlled : k ≠ .pod) {o : Object k}
    {members : Members} {metadata spec : Json} (distinct : (members.map (·.1)).Nodup)
    (foundMetadata : members.find? "metadata" = some metadata)
    (readsMetadata : Metadata.read? metadata = some o.metadata)
    (foundSpec : members.find? "spec" = some spec) (readsSpec : k.readSpec? spec = some o.spec)
    (readsStatus : members.optional "status" k.readStatus? = some o.status) :
    Object.read? k (.obj members) = some o := by
  obtain ⟨known, record, same⟩ := Json.record_obj members distinct ["metadata", "spec", "status"] 3
  have status : known.optional "status" k.readStatus? = some o.status := by
    rwa [Members.optional, same _ (by simp)]
  have reads : Object.readRecord? k (.obj members) = some o := by
    rw [readRecord?, record, Option.bind_eq_bind, Option.bind_some, Members.required,
      same _ (by simp), foundMetadata, Option.bind_some, readsMetadata, Members.required,
      same _ (by simp), foundSpec, Option.bind_some, readsSpec, status]
    rfl
  cases k with
  | pod => contradiction
  | _ => exact reads

end HostPorts
