import HostPorts.Proofs.Admission.Mutation
import HostPorts.Proofs.Pod.Exclusive

/-!
Host ports that no claim accounts for. A pod that was admitted has none in its containers, but the
init containers are not looked at: they are admitted as they are, host ports included.
-/
namespace HostPorts

/-- The ports of its init containers that the pod wants on the host. -/
def Pod.initHostPorts (pod : Pod) : List ContainerPort :=
  ((pod.spec.bind (·.initContainers)).getD []).flatMap fun c =>
    (c.ports.getD []).filter fun cp => 0 < cp.hostPort.getD 0

/-- The pod names a claim for the port, and the host port is the number of the allocated port behind
that claim. -/
def Store.Grants (s : Store) (claimPrefix ns : String) (pod : Pod) (cp : ContainerPort) : Prop :=
  ∃ claimName n, pod.claimFor claimPrefix cp = some claimName ∧ s.Resolves ns claimName n ∧
    cp.hostPort = some (Int.ofNat n.toNat)

namespace Injection

variable {s : Store} {now : Timestamp} {prefixes : AnnotationPrefixes} {ns : String} {p m : Pod}

theorem grants_hostPorts (done : (s.run now (inject prefixes ns p)).1 = .ok m) :
    ∀ cp ∈ Pod.hostPorts m, s.Grants prefixes.claim ns p cp := by
  intro cp listed
  obtain ⟨⟨i, j, found⟩, positive⟩ := Pod.mem_hostPorts listed
  obtain ⟨name, claimName, n, named, annotated, resolves, set⟩ :=
    inject_claimed done found positive
  refine ⟨claimName, n, ?_, resolves, set⟩
  rw [Pod.claimFor, named]
  exact annotated

theorem initHostPorts_of_inject (done : (s.run now (inject prefixes ns p)).1 = .ok m) :
    Pod.initHostPorts m = Pod.initHostPorts p := by
  obtain ⟨_, _, _, _, injected⟩ := run_inject_iff_injected.mp done
  rw [Pod.initHostPorts, Pod.initHostPorts, injected.spec]
  cases p.spec <;> rfl

theorem grants_iff_of_inject
    (free : ∀ a b, prefixes.claim ++ "/" ++ a ≠ prefixes.port ++ "/" ++ b)
    (done : (s.run now (inject prefixes ns p)).1 = .ok m) (cp : ContainerPort) :
    s.Grants prefixes.claim ns m cp ↔ s.Grants prefixes.claim ns p cp := by
  have same : Pod.claimFor prefixes.claim m cp = Pod.claimFor prefixes.claim p cp := by
    unfold Pod.claimFor
    cases cp.name with
    | none => rfl
    | some name => exact inject_keeps_claim free done name
  rw [Store.Grants, Store.Grants, same]

end Injection

namespace Admission

variable {s : Store} {now : Timestamp} {prefixes : AnnotationPrefixes}

/-- An admitted pod is free of foreign host ports if and only if its init containers were so when it
was reviewed. What it has claimed is what it named then, and that it names still, unless a key of
a claim is a key of a port number as well and the number took its place. -/
theorem foreign_ports_iff {r : HttpRequest} {review : Review .pod} {response : Response}
    {q : Query .pod} {p : Pod} (h : Reviewed (Store.answer now) s prefixes r review response)
    (asked : review.query = some q) (create : q.operation = .create) (given : q.object = some p)
    (allowed : response.allowed = true) :
    let ns := (q.namespace_ <|> p.metadata.namespace_).getD ""
    ∃ raw raw' m, rawObject? r.body = some raw ∧ patched? response.write raw = some raw' ∧
      Object.read? .pod raw' = some m ∧
      ((∀ cp ∈ Pod.hostPorts m ++ Pod.initHostPorts m, s.Grants prefixes.claim ns p cp) ↔
        ∀ cp ∈ Pod.initHostPorts p, s.Grants prefixes.claim ns p cp) ∧
      ((∀ a b, prefixes.claim ++ "/" ++ a ≠ prefixes.port ++ "/" ++ b) →
        ∀ cp, s.Grants prefixes.claim ns m cp ↔ s.Grants prefixes.claim ns p cp) := by
  intro ns
  obtain ⟨raw, raw', m, there, does, reads, intended⟩ :=
    h.created_pod asked create given allowed
  have done : (s.run now (Injection.inject prefixes ns p)).1 = .ok m := intended
  refine ⟨raw, raw', m, there, does, reads, ?_,
    fun free => Injection.grants_iff_of_inject free done⟩
  rw [Injection.initHostPorts_of_inject done, List.forall_mem_append,
    and_iff_right (Injection.grants_hostPorts done)]

open Cluster (noon)

def postedWeb : HttpRequest := posted .pod (webPod.within "t").write

theorem foreign_ports_iff_web :
    let s := boundClaim.foldl (SerialMove.play "claims") {}
    ∃ (review : Review .pod) (response : Response) (raw raw' : Json) (m : Pod),
      Reviewed (Store.answer noon) s ⟨"claims", "ports"⟩ postedWeb review response ∧
      rawObject? postedWeb.body = some raw ∧ patched? response.write raw = some raw' ∧
      Object.read? .pod raw' = some m ∧
      (Pod.hostPorts m).any (fun cp => cp.hostPort = some 5000) = true ∧
      ∀ cp ∈ Pod.hostPorts m ++ Pod.initHostPorts m, s.Grants "claims" "t" m cp := by
  intro s
  have read : readBody .pod postedWeb.body =
      .ok ⟨"v1", "AdmissionReview", some ⟨"u", .create, none, some (webPod.within "t"), none⟩⟩ :=
    readBody_posted (by decide +kernel)
  have reviewed : Reviewed (Store.answer noon) s ⟨"claims", "ports"⟩ postedWeb _ _ :=
    reviewed_of_read (by decide +kernel) rfl (by decide +kernel) read
  obtain ⟨raw, raw', m, there, does, reads, foreign, keeps⟩ :=
    foreign_ports_iff reviewed rfl rfl rfl (by decide +kernel)
  have granted := foreign.mpr (by
    intro cp member
    cases member)
  have apart := @keys_apart ⟨"claims", "ports"⟩ (by decide) (by decide) (by decide)
  refine ⟨_, _, raw, raw', m, reviewed, there, does, reads, ?_, fun cp member =>
    (keeps apart cp).mpr (granted cp member)⟩
  have hosts : ((rawObject? postedWeb.body).bind fun raw =>
      (patched? (Pass.run (Store.answer noon) (respond ⟨"claims", "ports"⟩ .mutate .pod
        ⟨"v1", "AdmissionReview",
          some ⟨"u", .create, none, some (webPod.within "t"), none⟩⟩) s).1.write raw).bind
        fun raw' => (Object.read? .pod raw').map fun m =>
          (Pod.hostPorts m).any (fun cp => cp.hostPort = some 5000)) = some true := by
    rw [postedWeb, rawObject_posted]
    decide +kernel
  simpa only [there, does, reads, Option.bind_some, Option.map_some, Option.some.injEq] using hosts

def initPod : Pod :=
  { metadata := { namespace_ := some "t" }
    spec := some ⟨[⟨"web", none⟩], some [⟨"init", some [⟨80, some 5000, none⟩]⟩]⟩
    status := none }

/-- A pod whose init container opens a port of the host names no claim, and is admitted. -/
theorem init_port_admitted :
    ∃ (review : Review .pod) (q : Query .pod) (response : Response) (raw raw' : Json) (m : Pod)
        (cp : ContainerPort),
      Reviewed (Store.answer noon) {} ⟨"claims", "ports"⟩ (posted .pod initPod.write) review
        response ∧
      review.query = some q ∧ q.operation = .create ∧ q.object = some initPod ∧
      response.allowed = true ∧ rawObject? (posted .pod initPod.write).body = some raw ∧
      patched? response.write raw = some raw' ∧ Object.read? .pod raw' = some m ∧
      cp ∈ Pod.initHostPorts m ∧ ¬ Store.Grants {} "claims" "t" m cp := by
  have read : readBody .pod (posted .pod initPod.write).body =
      .ok ⟨"v1", "AdmissionReview", some ⟨"u", .create, none, some initPod, none⟩⟩ :=
    readBody_posted (by decide +kernel)
  have reviewed : Reviewed (Store.answer noon) {} ⟨"claims", "ports"⟩
      (posted .pod initPod.write) _ _ :=
    reviewed_of_read (by decide +kernel) rfl (by decide +kernel) read
  obtain ⟨raw, raw', m, there, does, reads, intended⟩ := reviewed.created_pod rfl rfl rfl rfl
  cases intended
  refine ⟨_, _, _, raw, raw', initPod, ⟨80, some 5000, none⟩, reviewed, rfl, rfl, rfl, rfl, there,
    does, reads, by decide +kernel, ?_⟩
  rintro ⟨claimName, n, names, _⟩
  cases names

end Admission
end HostPorts
