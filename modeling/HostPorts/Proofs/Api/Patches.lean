import HostPorts.Api.Client
import HostPorts.Proofs.Json.Merge
import HostPorts.Proofs.Object.Codec
import HostPorts.Proofs.Pass.Asks
import HostPorts.Proofs.Pass.Runs
import HostPorts.Proofs.Pass.Undisturbed

/-!
Writes behind an API server. A server merges the patch that stands for a write into the object that
it has, where the store in memory replaces a part of it; both come to the same object, as passes
write no status that lacks what the old one has.
-/
namespace HostPorts

namespace Kind

variable {k : Kind}

def statusMembers (k : Kind) (s : k.Status) : Members := (k.writeStatus s).members?.getD []

theorem writeStatus_eq (controlled : k ≠ .pod) (s : k.Status) :
    k.writeStatus s = .obj (k.statusMembers s) := by
  cases k with
  | pod => contradiction
  | _ => rfl

theorem names_statusMembers (s : k.Status) : ((k.statusMembers s).map (·.1)).Nodup := by
  cases k with
  | portClass =>
    obtain ⟨phase⟩ := s
    cases phase <;> simp [statusMembers, writeStatus, Json.members?, Json.member]
  | portPool =>
    obtain ⟨phase, conditions⟩ := s
    cases phase <;> cases conditions <;>
      simp [statusMembers, writeStatus, writeConditions, Json.members?, Json.member]
  | portClaim =>
    obtain ⟨phase, bound⟩ := s
    cases phase <;> cases bound <;> simp [statusMembers, writeStatus, Json.members?, Json.member]
  | port =>
    obtain ⟨phase, port, pool⟩ := s
    cases phase <;> cases pool <;> simp [statusMembers, writeStatus, Json.members?, Json.member]
  | pod => exact s.elim

theorem flat_statusMembers (s : k.Status) : (k.statusMembers s).Flat := by
  have phase (phase : Option Phase) : (Json.member "phase" (Phase.write k) phase).Flat :=
    Members.flat_member fun _ => ⟨rfl, rfl⟩
  have text (name : String) (value : Option String) : (Json.member name Json.str value).Flat :=
    Members.flat_member fun _ => ⟨rfl, rfl⟩
  cases k with
  | portClass => exact phase s.phase
  | portPool =>
    refine Members.Flat.append ?_ (phase s.phase)
    intro m member
    unfold writeConditions at member
    split at member
    · contradiction
    · cases List.mem_singleton.mp member
      exact ⟨rfl, rfl⟩
  | portClaim => exact (text _ _).append (phase s.phase)
  | port =>
    refine ((phase s.phase).append (text _ _)).append ?_
    intro m member
    cases List.mem_singleton.mp member
    exact ⟨rfl, rfl⟩
  | pod => exact s.elim

theorem mem_names_writeConditions {conditions : Conditions} {name : String} :
    name ∈ (writeConditions conditions).map (·.1) ↔ name = "conditions" ∧ conditions ≠ [] := by
  cases conditions <;> simp [writeConditions]

theorem Covers.find {old new : k.Status} (covers : k.Covers old new) {name : String}
    (found : (k.statusMembers old).find? name ≠ none) :
    (k.statusMembers new).find? name ≠ none := by
  rw [Members.find_ne_none] at found ⊢
  cases k with
  | portClass =>
    obtain ⟨is, phase⟩ := Members.mem_names_member.mp found
    exact Members.mem_names_member.mpr ⟨is, covers phase⟩
  | portPool =>
    obtain ⟨phase, conditions⟩ := covers
    simp only [statusMembers, writeStatus, Json.members?, Option.getD_some, List.map_append,
      List.mem_append, mem_names_writeConditions, Members.mem_names_member] at found ⊢
    exact found.imp (And.imp_right conditions) (And.imp_right phase)
  | portClaim =>
    obtain ⟨phase, bound⟩ := covers
    simp only [statusMembers, writeStatus, Json.members?, Option.getD_some, List.map_append,
      List.mem_append, Members.mem_names_member] at found ⊢
    exact found.imp (And.imp_right bound) (And.imp_right phase)
  | port =>
    obtain ⟨phase, pool⟩ := covers
    simp only [statusMembers, writeStatus, Json.members?, Option.getD_some, List.map_append,
      List.mem_append, Members.mem_names_member] at found ⊢
    exact found.imp (Or.imp (And.imp_right phase) (And.imp_right pool)) id
  | pod => exact old.elim

end Kind

namespace Metadata

theorem read_merged {m m' : Metadata} (whole : m'.WholeSeconds) {written written' patch : Members}
    (writes : m.write = .obj written) (writes' : m'.write = .obj written')
    (distinct : (patch.map (·.1)).Nodup) (flat : patch.Flat)
    (sets : ∀ name, written'.find? name = (patch.find? name).or (written.find? name)) :
    read? (m.write.merge (.obj patch)) = some m' := by
  rw [writes, Json.merge]
  refine read_of_alike whole writes' ?_
  intro name
  rw [sets, Json.find_mergeMembers distinct]
  cases found : patch.find? name with
  | none => rfl
  | some value =>
    obtain ⟨plain, solid⟩ := flat.find found
    simp [solid, Json.merge_of_flat plain]

end Metadata

namespace Object

variable {k : Kind} {o : Object k} {version : String}

def members (o : Object k) : Members := o.write.members?.getD []

theorem names_members (o : Object k) : (o.members.map (·.1)).Nodup := by
  obtain ⟨metadata, spec, status⟩ := o
  cases k with
  | pod => cases spec <;> cases status <;>
      simp [members, write, specMember, Json.members?, Json.member]
  | _ => cases status <;> simp [members, write, specMember, Json.members?, Json.member]

theorem find_members (controlled : k ≠ .pod) (o : Object k) :
    o.members.find? "metadata" = some o.metadata.write ∧
      o.members.find? "spec" = some (k.writeSpec o.spec) ∧
      o.members.find? "status" = o.status.map k.writeStatus := by
  cases k with
  | pod => contradiction
  | _ => simp [members, write, specMember, Json.members?]

theorem read_sameVersion (whole : o.metadata.WholeSeconds)
    (versioned : o.metadata.resourceVersion = some version) :
    Metadata.read? (o.metadata.write.merge (.obj [("resourceVersion", .str version)])) =
      some o.metadata := by
  refine Metadata.read_merged whole rfl rfl (by simp) ?_ ?_
  · intro m member
    cases List.mem_singleton.mp member
    exact ⟨rfl, rfl⟩
  · intro name
    by_cases same : "resourceVersion" = name
    · subst same
      simp [versioned]
    · simp [same]

theorem read_mergedStatus (controlled : k ≠ .pod) {status : k.Status}
    (covers : ∀ old, o.status = some old → k.Covers old status) :
    k.readStatus? (((o.status.map k.writeStatus).getD .null).merge (k.writeStatus status)) =
      some status := by
  have writes := k.writeStatus_eq controlled status
  have patch := k.names_statusMembers status
  have flat := k.flat_statusMembers status
  have reads : ∀ old : Members, (old.map (·.1)).Nodup →
      (∀ name, old.find? name ≠ none → (k.statusMembers status).find? name ≠ none) →
      k.readStatus? (.obj (Json.mergeMembers old (k.statusMembers status))) = some status := by
    intro old distinct covered
    exact Kind.readStatus_of_alike controlled (Json.names_mergeMembers distinct) writes
      fun name => flat.find_merge patch (covered name)
  rw [writes, Json.merge]
  cases is : o.status with
  | none => exact reads [] List.nodup_nil fun name present => absurd rfl present
  | some old =>
    rw [Option.map_some, Option.getD_some, k.writeStatus_eq controlled old]
    exact reads _ (k.names_statusMembers old) fun name => Kind.Covers.find (covers old is)

theorem read_of_merged (controlled : k ≠ .pod) {target : Object k} {patch metadata : Members}
    (distinct : (patch.map (·.1)).Nodup)
    (setsMetadata : patch.find? "metadata" = some (.obj metadata))
    (readsMetadata : Metadata.read? (o.metadata.write.merge (.obj metadata)) =
      some target.metadata)
    (noSpec : patch.find? "spec" = none) (sameSpec : target.spec = o.spec)
    (readsStatus : (Json.mergeMembers o.members patch).optional "status" k.readStatus? =
      some target.status) : read? k (o.write.merge (.obj patch)) = some target := by
  obtain ⟨own, spec, _⟩ := find_members controlled o
  have foundMetadata : (Json.mergeMembers o.members patch).find? "metadata" =
      some (o.metadata.write.merge (.obj metadata)) := by
    rw [Json.find_mergeMembers distinct, setsMetadata, own]
    rfl
  have foundSpec : (Json.mergeMembers o.members patch).find? "spec" =
      some (k.writeSpec o.spec) := by
    rw [Json.find_mergeMembers distinct, noSpec]
    exact spec
  have readsSpec := (Kind.inverts_spec controlled o.spec).reads
  rw [← sameSpec] at readsSpec foundSpec
  exact read_of_members controlled (Json.names_mergeMembers o.names_members) foundMetadata
    readsMetadata foundSpec readsSpec readsStatus

theorem read_statusPatch (controlled : k ≠ .pod) {new : Object k} (restated : o.Restated new)
    (blank : o.phase = none → o.status = none) (whole : o.metadata.WholeSeconds)
    (versioned : o.metadata.resourceVersion = some version) :
    read? k (o.write.merge (Api.statusPatch new version)) = some new := by
  obtain ⟨status, rfl, covers⟩ := restated
  have covered : ∀ old, o.status = some old → k.Covers old status := by
    intro old is
    refine covers ?_ old is
    intro none
    rw [blank none] at is
    contradiction
  have reads := read_mergedStatus controlled covered
  have solid : (k.writeStatus status).isNull = false := by
    rw [k.writeStatus_eq controlled]
    rfl
  refine read_of_merged controlled (by simp) (by simp) (read_sameVersion whole versioned)
    (by simp) rfl ?_
  have found : (Json.mergeMembers o.members [("metadata", .obj [("resourceVersion", .str version)]),
      ("status", k.writeStatus status)]).find? "status" =
        some (((o.status.map k.writeStatus).getD .null).merge (k.writeStatus status)) := by
    rw [Json.find_mergeMembers (by simp), (find_members controlled o).2.2]
    simp [solid]
  rw [k.writeStatus_eq controlled status, Json.merge] at reads found
  rw [Option.map_some, Option.getD_some, k.writeStatus_eq controlled status]
  exact Members.optional_obj found reads

theorem finalizers_released (held : o.isProtected = true) :
    ∃ kept, o.released.metadata.finalizers = some kept := by
  obtain ⟨token, is, holds⟩ := (Option.any_eq_true ..).mp held
  cases listed : o.metadata.finalizers with
  | none => simp [ProtectionToken.isHeldBy, Metadata.finalizerList, listed] at holds
  | some finalizers =>
    refine ⟨finalizers.filter (· ≠ token.text), ?_⟩
    simp [released, is, ProtectionToken.release, listed]

theorem read_finalizersPatch (controlled : k ≠ .pod) (held : o.isProtected = true)
    (whole : o.metadata.WholeSeconds)
    (versioned : o.metadata.resourceVersion = some version) :
    read? k (o.write.merge (Api.finalizersPatch o.released version)) = some o.released := by
  obtain ⟨kept, finalizers⟩ := finalizers_released held
  have only := o.released_only
  rw [finalizers] at only
  rw [Api.finalizersPatch, Metadata.finalizerList, finalizers, Option.getD_some, only]
  have sets : Metadata.read? (o.metadata.write.merge (.obj
      [("finalizers", Json.ofStrings kept), ("resourceVersion", .str version)])) =
        some { o.metadata with finalizers := some kept } := by
    refine Metadata.read_merged ?_ rfl rfl (by simp) ?_ ?_
    · exact whole
    · intro m member
      simp only [List.mem_cons, List.not_mem_nil, or_false] at member
      rcases member with rfl | rfl
      · exact ⟨rfl, rfl⟩
      · exact ⟨rfl, rfl⟩
    · intro name
      by_cases same : "finalizers" = name
      · subst same
        simp
      · by_cases same' : "resourceVersion" = name
        · subst same'
          simp [versioned]
        · simp [same, same']
  have inverts : ∀ status, Json.Inverts k.readStatus? k.writeStatus status := by
    intro status
    have writes := k.writeStatus_eq controlled status
    refine ⟨by rw [writes]; nofun, ?_⟩
    rw [writes]
    exact Kind.readStatus_of_alike controlled (k.names_statusMembers status) writes fun _ => rfl
  refine read_of_merged controlled (by simp) (by simp) sets (by simp) rfl ?_
  refine Members.optional_inverts _ "status" o.status ?_ fun status _ => inverts status
  rw [Json.find_mergeMembers (by simp), (find_members controlled o).2.2]
  simp

end Object

namespace Store

variable {s : Store} {k : Kind} {o old : Object k}

theorem updateStatus_replaces (unarmed : s.failNextStatusWrite = false)
    (found : s.find k o.key = some old)
    (same : old.metadata.resourceVersion = o.metadata.resourceVersion) :
    (s.updateStatus o).1 = .ok (old.withStatusOf o s.nextVersion) := by
  obtain ⟨_, ok⟩ := updateStatus_ok unarmed found same
  rcases updateStatus_outcome o s with ⟨e, failed, _⟩ | ⟨old', found', _, written, _⟩
  · rw [ok] at failed
    contradiction
  · cases found.symm.trans found'
    exact written

theorem updateFinalizers_replaces (found : s.find k o.key = some old)
    (same : old.metadata.resourceVersion = o.metadata.resourceVersion) :
    (s.updateFinalizers o).1 = .ok (old.withFinalizersOf o s.nextVersion) := by
  obtain ⟨_, ok⟩ := updateFinalizers_ok found same
  rcases updateFinalizers_outcome o s with ⟨e, failed, _⟩ | ⟨old', found', _, written, _⟩
  · rw [ok] at failed
    contradiction
  · cases found.symm.trans found'
    exact written

end Store

namespace Api

variable {k : Kind} {o : Object k} {name version : String}

def carriedVersion? (body : Json) : Option String := do
  let m ← body.members?
  let metadata ← (← m.find? "metadata").members?
  (← metadata.find? "resourceVersion").str?

/-- The body carries the version of the object. Merged into the object it reads as what the store
in memory has when it replaces a part of the object, but for the version, which is a new one. -/
structure Agrees (o : Object k) (body : Json)
    (replace : Store → Except StoreError (Object k) × Store) : Prop where
  carries : carriedVersion? body = o.metadata.resourceVersion
  merges : ∃ merged : Object k, Object.read? k (o.write.merge body) = some merged ∧
    ∀ s : Store, s.find k o.key = some o → s.failNextStatusWrite = false →
      (replace s).1 = .ok (merged.withVersion s.nextVersion)

def patching (o : Object k) (name suffix : String) (body : Json) : Exchange (Object k) :=
  ⟨k, name, buildNamed "PATCH" (collection k (namespaceOf o)) name suffix patchType (some body),
    Object.read? k⟩

/-- If the request writes a status or finalizers, it writes them for the object, and both stores
agree on what comes of that. -/
inductive WriteAgrees (o : Object k) (name : String) : Request → Prop where
  | status {new : Object k} {body : Json}
      (sends : exchange (.updateStatus k new) = .ok (patching o name "/status" body))
      (agrees : Agrees o body (Store.updateStatus new)) : WriteAgrees o name (.updateStatus k new)
  | finalizers {new : Object k} {body : Json}
      (sends : exchange (.updateFinalizers k new) = .ok (patching o name "" body))
      (agrees : Agrees o body (Store.updateFinalizers new)) :
      WriteAgrees o name (.updateFinalizers k new)
  | create (p : Port) : WriteAgrees o name (.createPort p)
  | delete (p : Port) : WriteAgrees o name (.deletePort p)
  | read {r : Request} (read : r.isRead = true) : WriteAgrees o name r

theorem exchange_patch (new : Object k) (suffix : String) (body : String → Json)
    (same : new.metadata.name = o.metadata.name)
    (within : new.metadata.namespace_ = o.metadata.namespace_)
    (sameVersion : new.metadata.resourceVersion = o.metadata.resourceVersion)
    (named : o.metadata.name = some name) (versioned : o.metadata.resourceVersion = some version) :
    patchExchange new suffix body = .ok (patching o name suffix (body version)) := by
  rw [named] at same
  rw [versioned] at sameVersion
  simp [patchExchange, objectName, objectVersion, same, sameVersion, patching, namespaceOf, within,
    bind, Except.bind, pure, Except.pure]

theorem writeAgrees_status (controlled : k ≠ .pod) {new : Object k} (restated : o.Restated new)
    (named : o.metadata.name = some name) (versioned : o.metadata.resourceVersion = some version)
    (whole : o.metadata.WholeSeconds) (blank : o.phase = none → o.status = none) :
    WriteAgrees o name (.updateStatus k new) := by
  have reads := Object.read_statusPatch controlled restated blank whole versioned
  obtain ⟨status, is, _⟩ := restated
  subst is
  refine .status (exchange_patch _ "/status" (statusPatch _) rfl rfl rfl named versioned) ?_
  refine ⟨versioned.symm, _, reads, ?_⟩
  intro s found unarmed
  exact Store.updateStatus_replaces (o := { o with status := some status }) unarmed found rfl

theorem writeAgrees_release (controlled : k ≠ .pod) (held : o.isProtected = true)
    (named : o.metadata.name = some name) (versioned : o.metadata.resourceVersion = some version)
    (whole : o.metadata.WholeSeconds) : WriteAgrees o name (.updateFinalizers k o.released) := by
  have reads := Object.read_finalizersPatch controlled held whole versioned
  have only := o.released_only
  generalize o.released = new at only reads
  rw [only] at reads ⊢
  refine .finalizers (exchange_patch _ "" (finalizersPatch _) rfl rfl rfl named versioned) ?_
  refine ⟨versioned.symm, _, reads, ?_⟩
  intro s found _
  exact Store.updateFinalizers_replaces
    (o := { o with metadata := { o.metadata with finalizers := new.metadata.finalizers } })
    found rfl

end Api

/-- Whatever a pass is told after it has found its object, the patches that it sends to a server
come to what a store in memory makes of its writes. -/
theorem server_writes_agree {now : Timestamp} {claimPrefix name version : String} {k : Kind}
    {ref : ObjectRef} {o : Object k} {rest : Pass Outcome}
    (finds : (Reconcile.pass now claimPrefix k ref).Finds o rest)
    (named : o.metadata.name = some name) (versioned : o.metadata.resourceVersion = some version)
    (whole : o.metadata.WholeSeconds) (blank : o.phase = none → o.status = none) :
    ∀ r, rest.MayAsk r → Api.WriteAgrees o name r := by
  intro r asks
  have controlled : k ≠ .pod := by
    rintro rfl
    cases finds
  cases Reconcile.asksFor_pass finds asks with
  | status restated => exact Api.writeAgrees_status controlled restated named versioned whole blank
  | release held => exact Api.writeAgrees_release controlled held named versioned whole
  | create p => exact .create p
  | delete p => exact .delete p
  | read read => exact .read read

open Cluster (noon)

def uncheckedPool : PortPool where
  metadata := {
    name := some "m"
    resourceVersion := some "7"
    creationTimestamp := some noon
    finalizers := some [ProtectionToken.ofPool.text] }
  spec := ⟨"c", 5000, 5009, true⟩
  status := some ⟨some .pending,
    [⟨PortPool.overlapType, .unknown, "NotChecked", "overlap check has not run yet", some noon⟩]⟩

theorem server_writes_agree_checked :
    Api.WriteAgrees uncheckedPool "m"
      (.updateStatus .portPool (uncheckedPool.checked noon [uncheckedPool])) := by
  have whole : uncheckedPool.metadata.WholeSeconds := by
    rintro t (created | deleted)
    · cases created
      rfl
    · cases deleted
  have finds : (Reconcile.pass noon "claims" .portPool ⟨none, "m"⟩).Finds uncheckedPool
      (Reconcile.checkOverlap noon uncheckedPool) := .found
  have asks : (Reconcile.checkOverlap noon uncheckedPool).MayAsk
      (.updateStatus .portPool (uncheckedPool.checked noon [uncheckedPool])) :=
    Or.inr ⟨.ok [uncheckedPool], Or.inl rfl⟩
  exact server_writes_agree finds rfl rfl whole nofun _ asks

end HostPorts
