import HostPorts.Object.Codec
import HostPorts.Proofs.Json.Revision

/-!
Patches of objects. What admission may change of an object is reproduced by the difference between
the written objects, on whatever the object was read from: more finalizers or annotations in its
metadata, and other host ports in the containers of a pod.
-/
namespace HostPorts

open Json (Patches Steady)
open Json.Edit (applyAll)

theorem OwnerReference.steady (r : OwnerReference) : r.write.Steady :=
  (((((Members.tidy_nil.cons (Json.steady_str _)).append
    (Members.tidy_member "blockOwnerDeletion" _ fun b _ => Json.steady_bool b)).append
    (Members.tidy_member "controller" _ fun b _ => Json.steady_bool b)).append
    (((Members.tidy_nil.cons (Json.steady_str _)).cons (Json.steady_str _)).cons
      (Json.steady_str _)))).obj (by decide)

namespace Metadata

variable {m : Metadata}

theorem tidy {members : Members} (writes : m.write = .obj members) :
    members.Tidy ["annotations", "creationTimestamp", "deletionTimestamp", "finalizers",
      "generateName", "generation", "labels", "name", "namespace", "ownerReferences",
      "resourceVersion", "uid"] := by
  cases writes
  have text (name : String) (value : Option String) :
      Members.Tidy [name] (Json.member name Json.str value) :=
    Members.tidy_member name value fun s _ => Json.steady_str s
  have map (name : String) (value : Option (SortedMap String)) :
      Members.Tidy [name] (Json.member name Json.ofStringMap value) :=
    Members.tidy_member name value fun m _ => Json.steady_ofStringMap m
  have time (name : String) (value : Option Timestamp) :
      Members.Tidy [name] (Json.member name writeTime value) :=
    Members.tidy_member name value fun _ _ => Json.steady_str _
  have finalizers : Members.Tidy ["finalizers"]
      (Json.member "finalizers" Json.ofStrings m.finalizers) :=
    Members.tidy_member _ _ fun texts _ => Json.steady_ofStrings texts
  have generation : Members.Tidy ["generation"]
      (Json.member "generation" Json.ofInt64 m.generation) :=
    Members.tidy_member _ _ fun _ _ => Json.steady_int _
  have owners : Members.Tidy ["ownerReferences"] (Json.member "ownerReferences"
      (fun rs => .arr (rs.map OwnerReference.write)) m.ownerReferences) := by
    refine Members.tidy_member _ _ fun rs _ => Json.steady_arr fun j member => ?_
    obtain ⟨r, _, rfl⟩ := List.mem_map.mp member
    exact r.steady
  exact (((((((((((map _ _).append (time _ _)).append (time _ _)).append finalizers).append
    (text _ _)).append generation).append (map _ _)).append (text _ _)).append
    (text _ _)).append owners).append (text _ _)).append (text _ _)

theorem steady (m : Metadata) : m.write.Steady := (tidy rfl).obj (by decide)

theorem read_retouched {raw : Json} (reads : read? raw = some m) : ∃ members : Members,
    raw = .obj members ∧
    members.optional "annotations" (Json.map? Json.str?) = some m.annotations ∧
    members.optional "finalizers" (Json.list? Json.str?) = some m.finalizers ∧
    ∀ (members' : Members) annotations finalizers,
      (∀ name, name ≠ "annotations" → name ≠ "finalizers" →
        members'.find? name = members.find? name) →
      members'.optional "annotations" (Json.map? Json.str?) = some annotations →
      members'.optional "finalizers" (Json.list? Json.str?) = some finalizers →
      read? (.obj members') =
        some { m with annotations := annotations, finalizers := finalizers } := by
  rw [read?] at reads
  obtain ⟨members, is, reads⟩ := Option.bind_eq_some_iff.mp reads
  obtain ⟨_, annotations, reads⟩ := Option.bind_eq_some_iff.mp reads
  obtain ⟨_, created, reads⟩ := Option.bind_eq_some_iff.mp reads
  obtain ⟨_, deleted, reads⟩ := Option.bind_eq_some_iff.mp reads
  obtain ⟨_, finalizers, reads⟩ := Option.bind_eq_some_iff.mp reads
  obtain ⟨_, generateName, reads⟩ := Option.bind_eq_some_iff.mp reads
  obtain ⟨_, generation, reads⟩ := Option.bind_eq_some_iff.mp reads
  obtain ⟨_, labels, reads⟩ := Option.bind_eq_some_iff.mp reads
  obtain ⟨_, name, reads⟩ := Option.bind_eq_some_iff.mp reads
  obtain ⟨_, ns, reads⟩ := Option.bind_eq_some_iff.mp reads
  obtain ⟨_, owners, reads⟩ := Option.bind_eq_some_iff.mp reads
  obtain ⟨_, version, reads⟩ := Option.bind_eq_some_iff.mp reads
  obtain ⟨_, uid, reads⟩ := Option.bind_eq_some_iff.mp reads
  cases reads
  refine ⟨members, Json.eq_obj_of_members is, annotations, finalizers, ?_⟩
  intro members' annotations' finalizers' others reads reads'
  have same {α : Type} (name : String) (item : Json → Option α) {value : Option α}
      (was : members.optional name item = some value) (other : name ≠ "annotations")
      (other' : name ≠ "finalizers") : members'.optional name item = some value :=
    (Members.optional_congr (others name other other')).trans was
  rw [read?, Json.members?, Option.bind_eq_bind, Option.bind_some, reads, reads',
    same _ _ created (by decide) (by decide), same _ _ deleted (by decide) (by decide),
    same _ _ generateName (by decide) (by decide), same _ _ generation (by decide) (by decide),
    same _ _ labels (by decide) (by decide), same _ _ name (by decide) (by decide),
    same _ _ ns (by decide) (by decide), same _ _ owners (by decide) (by decide),
    same _ _ version (by decide) (by decide), same _ _ uid (by decide) (by decide)]
  rfl

theorem patches_annotations (m : Metadata) (annotations : SortedMap String)
    (kept : ∀ key, m.annotationMap.find? key ≠ none → annotations.find? key ≠ none) :
    Patches read? write m { m with annotations := some annotations } := by
  have edits : Json.diff [] m.write (write { m with annotations := some annotations }) =
      Json.editsUnder "annotations" (m.annotations.map Json.ofStringMap)
        (Json.ofStringMap annotations) := by
    have diff := (tidy (m := m) rfl).diff (tidy (m := { m with annotations := annotations }) rfl)
      (by decide) "annotations" (fun name other => by simp [Ne.symm other]) (by simp; rfl)
    rw [write, write, diff]
    simp
  have patches : ∀ a, m.annotations = some a →
      Patches (Json.map? Json.str?) Json.ofStringMap a annotations := by
    intro a is
    refine Json.patches_stringMap fun key present => kept key ?_
    rwa [annotationMap, is]
  refine Json.patches_field "annotations" edits (fun raw reads => ?_) patches
    (fun _ => (Json.inverts_ofStringMap annotations).reads) rfl
  obtain ⟨members, is, before, finalizers, retouched⟩ := read_retouched reads
  refine ⟨members, is, before, fun members' others reads' => ?_⟩
  exact retouched members' _ _ (fun name other _ => others name other) reads'
    ((Members.optional_congr (others "finalizers" (by decide))).trans finalizers)

theorem diff_finalizers (m : Metadata) (finalizers : List String) :
    Json.diff [] m.write (write { m with finalizers := some finalizers }) =
      Json.editsUnder "finalizers" (m.finalizers.map Json.ofStrings)
        (Json.ofStrings finalizers) := by
  have diff := (tidy (m := m) rfl).diff (tidy (m := { m with finalizers := finalizers }) rfl)
    (by decide) "finalizers" (fun name other => by simp [Ne.symm other]) (by simp; rfl)
  rw [write, write, diff]
  simp

theorem patches_finalizers (m : Metadata) (token : String) :
    Patches read? write m { m with finalizers := some (m.finalizerList ++ [token]) } := by
  have patches : ∀ a, m.finalizers = some a →
      Patches (Json.list? Json.str?) Json.ofStrings a (m.finalizerList ++ [token]) := by
    intro a is
    rw [finalizerList, is, Option.getD_some]
    exact Json.patches_list_append
      (List.forall₂_same.mpr fun s _ => .refl (Json.steady_str s)) fun _ _ => rfl
  refine Json.patches_field "finalizers" (m.diff_finalizers _) (fun raw reads => ?_) patches
    (fun _ => (Json.inverts_ofStrings _).reads) rfl
  obtain ⟨members, is, annotations, before, retouched⟩ := read_retouched reads
  refine ⟨members, is, before, fun members' others reads' => ?_⟩
  exact retouched members' _ _ (fun name _ other => others name other)
    ((Members.optional_congr (others "annotations" (by decide))).trans annotations) reads'

theorem diff_finalizers_ne_nil (m : Metadata) (token : String) :
    Json.diff [] m.write (write { m with finalizers := some (m.finalizerList ++ [token]) }) ≠
      [] := by
  rw [diff_finalizers, finalizerList]
  cases m.finalizers with
  | none => exact List.cons_ne_nil _ _
  | some held =>
    intro none
    have same : Json.diff [] (Json.ofStrings held) (Json.ofStrings (held ++ [token])) = [] :=
      List.map_eq_nil_iff.mp none
    -- without a difference the longer list would be read from the shorter one
    obtain ⟨raw, applied, reads⟩ := Json.patches_list_append
      (List.forall₂_same.mpr fun s (_ : s ∈ held) => .refl (Json.steady_str s))
      (fun s (_ : s ∈ [token]) => rfl) _ (Json.inverts_ofStrings held).reads
    rw [Json.ofStrings, Json.ofStrings] at same
    rw [same] at applied
    cases applied
    have lists := (Json.inverts_ofStrings held).reads.symm.trans reads
    simp at lists

end Metadata

namespace ContainerPort

def Rehosted (p p' : ContainerPort) : Prop :=
  p' = p ∨ ∃ n : UInt16, p' = { p with hostPort := some (Int.ofNat n.toNat) }

theorem tidy (p : ContainerPort) : Members.Tidy ["containerPort", "hostPort", "name"]
    ([("containerPort", .int p.containerPort)] ++ Json.member "hostPort" .int p.hostPort ++
      Json.member "name" .str p.name) :=
  ((Members.tidy_nil.cons (Json.steady_int _)).append
    (Members.tidy_member "hostPort" _ fun n _ => Json.steady_int n)).append
    (Members.tidy_member "name" _ fun s _ => Json.steady_str s)

theorem reads_number (n : UInt16) :
    Json.int32? (.int (Int.ofNat n.toNat)) = some (Int.ofNat n.toNat) := by
  have below := n.toNat_lt
  have within : -2147483648 ≤ Int.ofNat n.toNat ∧ Int.ofNat n.toNat < 2147483648 := by
    rw [Int.ofNat_eq_natCast]
    omega
  rw [Json.int32?, if_pos within]

theorem patches {p p' : ContainerPort} (rehosted : p.Rehosted p') : Patches read? write p p' := by
  rcases rehosted with rfl | ⟨n, rfl⟩
  · exact .refl (p'.tidy.obj (by decide))
  have edits : Json.diff [] p.write (write { p with hostPort := some (Int.ofNat n.toNat) }) =
      Json.editsUnder "hostPort" (p.hostPort.map .int) (.int (Int.ofNat n.toNat)) := by
    have diff := p.tidy.diff (tidy { p with hostPort := some (Int.ofNat n.toNat) })
      (by decide) "hostPort" (fun name other => by simp [Ne.symm other]) (by simp; rfl)
    rw [write, write, diff]
    simp
  refine Json.patches_field "hostPort" edits (fun raw reads => ?_)
    (fun _ _ => Json.patches_int (reads_number n)) (fun _ => reads_number n) rfl
  obtain ⟨members, is, reads⟩ := Option.bind_eq_some_iff.mp reads
  obtain ⟨_, number, reads⟩ := Option.bind_eq_some_iff.mp reads
  obtain ⟨_, before, reads⟩ := Option.bind_eq_some_iff.mp reads
  obtain ⟨_, name, reads⟩ := Option.bind_eq_some_iff.mp reads
  cases reads
  refine ⟨members, Json.eq_obj_of_members is, before, fun members' others reads' => ?_⟩
  rw [read?, Json.members?, Option.bind_eq_bind, Option.bind_some,
    (Members.optional_congr (others "containerPort" (by decide))).trans number, reads',
    (Members.optional_congr (others "name" (by decide))).trans name]
  rfl

end ContainerPort

namespace Container

structure Rehosted (c c' : Container) : Prop where
  name : c'.name = c.name
  ports : Option.Rel (List.Forall₂ ContainerPort.Rehosted) c.ports c'.ports

theorem tidy (c : Container) : Members.Tidy ["name", "ports"]
    ([("name", .str c.name)] ++
      Json.member "ports" (fun ps => .arr (ps.map ContainerPort.write)) c.ports) := by
  refine (Members.tidy_nil.cons (Json.steady_str _)).append
    (Members.tidy_member "ports" _ fun ps _ => Json.steady_arr fun j member => ?_)
  obtain ⟨p, _, rfl⟩ := List.mem_map.mp member
  exact p.tidy.obj (by decide)

theorem patches {c c' : Container} (rehosted : c.Rehosted c') : Patches read? write c c' := by
  obtain ⟨name, ports⟩ := c
  obtain ⟨name', ports'⟩ := c'
  obtain ⟨same, ports⟩ := rehosted
  cases same
  cases ports with
  | none => exact .refl ((tidy ⟨name, none⟩).obj (by decide))
  | @some ports ports' each =>
    have edits : Json.diff [] (write ⟨name, some ports⟩) (write ⟨name, some ports'⟩) =
        Json.editsUnder "ports" ((some ports).map fun ps => .arr (ps.map ContainerPort.write))
          (.arr (ports'.map ContainerPort.write)) := by
      have diff := (tidy ⟨name, some ports⟩).diff (tidy ⟨name, some ports'⟩)
        (by decide) "ports" (fun name other => by simp [Ne.symm other]) (by simp; rfl)
      rw [write, write, diff]
      simp
    have patches : ∀ ps, some ports = some ps →
        Patches (Json.list? ContainerPort.read?) (fun ps => .arr (ps.map ContainerPort.write)) ps
          ports' :=
      fun ps is => Option.some.inj is ▸
        Json.patches_list (each.imp fun _ _ => ContainerPort.patches)
    refine Json.patches_field "ports" edits (fun raw reads => ?_) patches nofun rfl
    obtain ⟨members, is, reads⟩ := Option.bind_eq_some_iff.mp reads
    obtain ⟨_, name, reads⟩ := Option.bind_eq_some_iff.mp reads
    obtain ⟨_, before, reads⟩ := Option.bind_eq_some_iff.mp reads
    cases reads
    refine ⟨members, Json.eq_obj_of_members is, before, fun members' others reads' => ?_⟩
    rw [read?, Json.members?, Option.bind_eq_bind, Option.bind_some,
      (Members.optional_congr (others "name" (by decide))).trans name, reads']
    rfl

end Container

namespace PodSpec

structure Rehosted (s s' : PodSpec) : Prop where
  containers : List.Forall₂ Container.Rehosted s.containers s'.containers
  initContainers : s'.initContainers = s.initContainers

theorem tidy (s : PodSpec) : Members.Tidy ["containers", "initContainers"]
    ([("containers", .arr (s.containers.map Container.write))] ++
      Json.member "initContainers" (fun cs => .arr (cs.map Container.write)) s.initContainers) := by
  have steady : ∀ cs : List Container, Steady (.arr (cs.map Container.write)) := by
    refine fun cs => Json.steady_arr fun j member => ?_
    obtain ⟨c, _, rfl⟩ := List.mem_map.mp member
    exact c.tidy.obj (by decide)
  exact (Members.tidy_nil.cons (steady _)).append
    (Members.tidy_member "initContainers" _ fun cs _ => steady cs)

theorem patches {s s' : PodSpec} (rehosted : s.Rehosted s') : Patches read? write s s' := by
  obtain ⟨each, rest⟩ := rehosted
  obtain ⟨containers, inits⟩ := s
  obtain ⟨containers', inits'⟩ := s'
  cases rest
  by_cases empty : containers = []
  · -- such a list may be absent from what was read, but then there is nothing to patch
    cases empty
    cases each
    exact .refl ((tidy ⟨[], inits⟩).obj (by decide))
  have edits : Json.diff [] (write ⟨containers, inits⟩) (write ⟨containers', inits⟩) =
      Json.editsUnder "containers" ((some containers).map fun cs => .arr (cs.map Container.write))
        (.arr (containers'.map Container.write)) := by
    have diff := (tidy ⟨containers, inits⟩).diff (tidy ⟨containers', inits⟩)
      (by decide) "containers" (fun name other => by simp [Ne.symm other]) (by simp; rfl)
    rw [write, write, diff]
    simp
  have patches : ∀ cs, some containers = some cs →
      Patches (Json.list? Container.read?) (fun cs => .arr (cs.map Container.write)) cs
        containers' :=
    fun cs is => Option.some.inj is ▸ Json.patches_list (each.imp fun _ _ => Container.patches)
  refine Json.patches_field "containers" edits (fun raw reads => ?_) patches nofun rfl
  obtain ⟨members, is, reads⟩ := Option.bind_eq_some_iff.mp reads
  obtain ⟨listed, before, reads⟩ := Option.bind_eq_some_iff.mp reads
  obtain ⟨_, inits, reads⟩ := Option.bind_eq_some_iff.mp reads
  cases reads
  cases listed with
  | none => contradiction
  | some containers =>
    refine ⟨members, Json.eq_obj_of_members is, before, fun members' others reads' => ?_⟩
    rw [read?, Json.members?, Option.bind_eq_bind, Option.bind_some, reads',
      (Members.optional_congr (others "initContainers" (by decide))).trans inits]
    rfl

end PodSpec

theorem Condition.steady (c : Condition) : c.write.Steady :=
  ((Members.tidy_member "lastTransitionTime" _ fun _ _ => Json.steady_str _).append
    ((((Members.tidy_nil.cons (Json.steady_str _)).cons (Json.steady_str _)).cons
      (Json.steady_str _)).cons (Json.steady_str _))).obj (by decide)

namespace Kind

variable {k : Kind}

theorem steady_spec (controlled : k ≠ .pod) (s : k.Spec) : (k.writeSpec s).Steady := by
  cases k with
  | portClass => exact Members.tidy_nil.obj (by decide)
  | portPool =>
    exact ((((Members.tidy_nil.cons (Json.steady_int _)).cons (Json.steady_int _)).cons
      (Json.steady_bool _)).cons (Json.steady_str _)).obj (by decide)
  | portClaim => exact (Members.tidy_nil.cons (Json.steady_str _)).obj (by decide)
  | port =>
    refine ((Members.tidy_member "claimRef" s.claimRef fun r _ => ?_).append
      (Members.tidy_nil.cons (Json.steady_str _))).obj (by decide)
    exact (((Members.tidy_nil.cons (Json.steady_str _)).cons (Json.steady_str _)).cons
      (Json.steady_str _)).obj (by decide)
  | pod => contradiction

theorem steady_status (s : k.Status) : (k.writeStatus s).Steady := by
  have phase (phase : Option Phase) :
      Members.Tidy ["phase"] (Json.member "phase" (Phase.write k) phase) :=
    Members.tidy_member _ _ fun _ _ => Json.steady_str _
  have text (name : String) (value : Option String) :
      Members.Tidy [name] (Json.member name Json.str value) :=
    Members.tidy_member _ _ fun _ _ => Json.steady_str _
  cases k with
  | portClass => exact (phase s.phase).obj (by decide)
  | portPool =>
    have conditions : Members.Tidy ["conditions"] (writeConditions s.conditions) := by
      unfold writeConditions
      split
      · exact ⟨List.nil_sublist _, List.forall_mem_nil _⟩
      · refine Members.tidy_nil.cons (Json.steady_arr fun j member => ?_)
        obtain ⟨c, _, rfl⟩ := List.mem_map.mp member
        exact c.steady
    exact (conditions.append (phase s.phase)).obj (by decide)
  | portClaim => exact ((text _ _).append (phase s.phase)).obj (by decide)
  | port =>
    exact (((phase s.phase).append (text _ _)).append
      (Members.tidy_nil.cons (Json.steady_int _))).obj (by decide)
  | pod => exact s.elim

end Kind

namespace Object

variable {k : Kind}

theorem specMember_of_controlled (controlled : k ≠ .pod) (o : Object k) :
    o.specMember = [("spec", k.writeSpec o.spec)] := by
  cases k with
  | pod => contradiction
  | _ => rfl

theorem tidy (o : Object k) : Members.Tidy ["apiVersion", "kind", "metadata", "spec", "status"]
    ([("apiVersion", .str k.apiVersion), ("kind", .str k.name), ("metadata", o.metadata.write)] ++
      o.specMember ++ Json.member "status" k.writeStatus o.status) := by
  have head : Members.Tidy ["apiVersion", "kind", "metadata"] [("apiVersion", .str k.apiVersion),
      ("kind", .str k.name), ("metadata", o.metadata.write)] :=
    ((Members.tidy_nil.cons o.metadata.steady).cons (Json.steady_str _)).cons (Json.steady_str _)
  have status := Members.tidy_member "status" o.status fun s _ => Kind.steady_status s
  have spec : Members.Tidy ["spec"] o.specMember := by
    by_cases controlled : k = .pod
    · subst controlled
      exact Members.tidy_member _ _ fun s _ => s.tidy.obj (by decide)
    · rw [specMember_of_controlled controlled]
      exact Members.tidy_nil.cons (Kind.steady_spec controlled o.spec)
  exact (head.append spec).append status

theorem specMember_withMetadata (o : Object k) (m : Metadata) :
    specMember { o with metadata := m } = o.specMember := by
  cases k <;> rfl

theorem find_metadata_specMember (o : Object k) : o.specMember.find? "metadata" = none := by
  cases k <;> simp [specMember]

theorem read_record (controlled : k ≠ .pod) : read? k = readRecord? k := by
  cases k with
  | pod => contradiction
  | _ => rfl

theorem diff_metadata (o : Object k) (m : Metadata) :
    Json.diff [] o.write (write { o with metadata := m }) =
      Json.editsUnder "metadata" (some o.metadata.write) m.write := by
  have diff := o.tidy.diff (tidy { o with metadata := m }) (by decide) "metadata"
    (fun name other => by simp [specMember_withMetadata, Ne.symm other])
    (by simp [specMember_withMetadata, find_metadata_specMember]; rfl)
  rw [write, write, diff]
  simp [find_metadata_specMember]

/-- Other metadata is patched in as it is patched by itself. Only an array cannot be patched: such
an object may also be written as the list of its fields. -/
theorem patches_metadata (controlled : k ≠ .pod) {o : Object k} {m : Metadata}
    (patches : Patches Metadata.read? Metadata.write o.metadata m) {members : Members}
    (reads : read? k (.obj members) = some o) :
    ∃ raw, applyAll (Json.diff [] o.write (write { o with metadata := m })) (.obj members) =
      some raw ∧ read? k raw = some { o with metadata := m } := by
  rw [read_record controlled] at reads ⊢
  obtain ⟨known, record, reads⟩ := Option.bind_eq_some_iff.mp reads
  obtain ⟨_, metadata, reads⟩ := Option.bind_eq_some_iff.mp reads
  obtain ⟨_, spec, reads⟩ := Option.bind_eq_some_iff.mp reads
  obtain ⟨_, status, reads⟩ := Option.bind_eq_some_iff.mp reads
  cases reads
  have there := (Members.required_congr (Json.find_record record (by simp)).symm).trans metadata
  obtain ⟨members', raw', edited, put, reads'⟩ := Json.patch_required there patches
  obtain ⟨known', record', put'⟩ := Json.record_put record (by simp) put
  have metadata' : known'.required "metadata" Metadata.read? = some m := by
    rw [Members.required, put'.find_self]
    exact reads'
  have spec' := (Members.required_congr (put'.find_other (by decide))).trans spec
  have status' := (Members.optional_congr (put'.find_other (by decide))).trans status
  refine ⟨.obj members', (diff_metadata _ m).symm ▸ edited, ?_⟩
  rw [readRecord?, record', Option.bind_eq_bind, Option.bind_some, metadata', spec', status']
  rfl

end Object

namespace Pod

/-- The same pod, with more annotations and under other host ports perhaps. -/
structure Revised (p p' : Pod) : Prop where
  metadata : p'.metadata = p.metadata ∨ ∃ annotations : SortedMap String,
    (∀ key, p.metadata.annotationMap.find? key ≠ none → annotations.find? key ≠ none) ∧
      p'.metadata = { p.metadata with annotations := some annotations }
  spec : Option.Rel PodSpec.Rehosted p.spec p'.spec

theorem Revised.patches_metadata {p p' : Pod} (revised : Revised p p') :
    Patches Metadata.read? Metadata.write p.metadata p'.metadata := by
  rcases revised.metadata with same | ⟨annotations, kept, is⟩
  · rw [same]
    exact .refl p.metadata.steady
  · rw [is]
    exact p.metadata.patches_annotations annotations kept

theorem diff_write (p p' : Pod) (same : p.spec.isSome = p'.spec.isSome) :
    Json.diff [] p.write p'.write =
      Json.editsUnder "metadata" (some p.metadata.write) p'.metadata.write ++
        (Json.member "spec" PodSpec.write p'.spec).flatMap fun m =>
          Json.editsUnder m.1 (p.spec.map PodSpec.write) m.2 := by
  obtain ⟨metadata, spec, _ | status⟩ := p
  · obtain ⟨metadata', spec', _ | status'⟩ := p'
    · have quiet := fun s : String => Json.editsUnder_steady (Json.steady_str s)
      cases spec <;> cases spec'
      case none.none | some.some =>
        simp only [Object.write, Object.specMember, Json.member, List.append_nil]
        rw [Json.diff_obj, Json.removals_nil (by simp)]
        simp [findEntry, quiet]
      case none.some | some.none => contradiction
    · exact status'.elim
  · exact status.elim

theorem typeWordFits_congr {members members' : Members} {name : String} (word : String)
    (same : members'.find? name = members.find? name) :
    Object.typeWordFits members' name word = Object.typeWordFits members name word := by
  rw [Object.typeWordFits, Object.typeWordFits, same]

theorem read_retouched {p : Pod} {raw : Json} (reads : Object.read? .pod raw = some p) :
    ∃ members : Members, raw = .obj members ∧
      members.required "metadata" Metadata.read? = some p.metadata ∧
      members.optional "spec" PodSpec.read? = some p.spec ∧
      ∀ (members' : Members) (p' : Pod),
        (∀ name, name ≠ "metadata" → name ≠ "spec" →
          members'.find? name = members.find? name) →
        members'.required "metadata" Metadata.read? = some p'.metadata →
        members'.optional "spec" PodSpec.read? = some p'.spec →
        Object.read? .pod (.obj members') = some p' := by
  obtain ⟨members, is, reads⟩ := Option.bind_eq_some_iff.mp reads
  split at reads
  next fits =>
    obtain ⟨_, metadata, reads⟩ := Option.bind_eq_some_iff.mp reads
    obtain ⟨_, spec, reads⟩ := Option.bind_eq_some_iff.mp reads
    cases reads
    refine ⟨members, Json.eq_obj_of_members is, metadata, spec, ?_⟩
    intro members' p' others metadata' spec'
    obtain ⟨m', s', _ | status⟩ := p'
    · rw [Object.read?, Object.readPod?, Json.members?, Option.bind_eq_bind, Option.bind_some,
        typeWordFits_congr "v1" (others "apiVersion" (by decide) (by decide)),
        typeWordFits_congr "Pod" (others "kind" (by decide) (by decide)), if_pos fits, metadata',
        spec']
      rfl
    · exact status.elim
  next => contradiction

theorem patches {p p' : Pod} (revised : Revised p p') :
    Patches (Object.read? .pod) Object.write p p' := by
  intro raw reads
  obtain ⟨members, rfl, metadata, spec, retouched⟩ := read_retouched reads
  obtain ⟨mid, raw', edited, put, metadata'⟩ :=
    Json.patch_required metadata revised.patches_metadata
  have there := (Members.optional_congr (put.find_other (by decide))).trans spec
  have found : mid.required "metadata" Metadata.read? = some p'.metadata := by
    rw [Members.required, put.find_self]
    exact metadata'
  have specs := revised.spec
  cases was : p.spec with
  | none =>
    cases is : p'.spec with
    | none =>
      refine ⟨.obj mid, ?_, retouched mid p' (fun name other _ => put.find_other other) found ?_⟩
      · rw [diff_write p p' (by rw [was, is]), is]
        simpa [Json.member] using edited
      · rw [is, ← was, there]
    | some => rw [was, is] at specs; cases specs
  | some s =>
    cases is : p'.spec with
    | none => rw [was, is] at specs; cases specs
    | some s' =>
      rw [was, is] at specs
      cases specs with
      | some rehosted =>
        rw [was] at there
        obtain ⟨members', raw'', edited', put', spec'⟩ := Json.patch_required
          (Members.required_of_optional there) (PodSpec.patches rehosted)
        refine ⟨.obj members', ?_, retouched members' p' (fun name other other' =>
          (put'.find_other other').trans (put.find_other other)) ?_ ?_⟩
        · rw [diff_write p p' (by rw [was, is]; rfl), Json.Edit.applyAll_append, edited,
            Option.bind_some, is, was]
          simpa [Json.member] using edited'
        · exact (Members.required_congr (put'.find_other (by decide))).trans found
        · rw [is]
          exact Json.optional_of_put put' spec' rfl

end Pod
end HostPorts
