import HostPorts.Proofs.Pod.Leased
import HostPorts.Proofs.Port.Numbers

/-!
Host ports are exclusive between pods. Users may delete whatever they like and create claims and
ports under names that do not run into each other; pods come with their ports injected. Whatever
pods lean on stays, and as port numbers are unique, pods on one host port share its claim.
-/
namespace HostPorts

/-- What users create is named and has no status; claims have a namespace and what is cluster-wide
has none, and names do not run into each other or into those of backing ports. -/
def UserAct.CreatesApart : UserAct → Prop
  | .insert k o _ => k ≠ .pod ∧ o.metadata.name ≠ none ∧ o.status = none ∧
    (o.metadata.namespace_ = none ↔ k.isNamespaced = false) ∧
    '/' ∉ (o.metadata.name.getD "").toList ∧ '/' ∉ (o.metadata.namespace_.getD "").toList ∧
    (k = .port → ¬ "claim-".toList <+: (o.metadata.name.getD "").toList)
  | _ => True

instance : DecidablePred UserAct.CreatesApart
  | .insert .. => inferInstanceAs (Decidable (_ ∧ _))
  | .delete .. => isTrue trivial
  | .failNextStatusWrite => isTrue trivial

def Pod.within (pod : Pod) (ns : String) : Pod :=
  { pod with metadata := { pod.metadata with namespace_ := some ns } }

/-- What happens besides passes: acts of users, and pods that come with their ports injected and
go. -/
inductive WorkloadAct (prefixes : AnnotationPrefixes) (s : Store) : Store → Prop where
  | user (a : UserAct) (ok : a.CreatesApart) : WorkloadAct prefixes s (a.perform s)
  | come (now later : Timestamp) (ns : String) {pod m : Pod}
      (injected : (s.run now (Injection.inject prefixes ns pod)).1 = .ok m) :
      WorkloadAct prefixes s (s.insert later (m.within ns)).2
  | go (key : String) : WorkloadAct prefixes s (s.withTable .pod (s.pods.erase key))

theorem WorkloadAct.cases {prefixes : AnnotationPrefixes} {s s' : Store}
    (h : WorkloadAct prefixes s s') (orderly : s.Orderly) :
    (∃ a : UserAct, a.CreatesApart ∧ s' = a.perform s) ∨ s' = s ∨
      (s'.Orderly ∧ ∃ key new, s.Puts s' .pod key new ∧
        (new = none ∨ ∃ now ns pod m i,
          (s.run now (Injection.inject prefixes ns pod)).1 = .ok m ∧
            new = some ((m.within ns).identified i))) := by
  cases h with
  | user a ok => exact Or.inl ⟨a, ok, rfl⟩
  | @come now later ns pod m injected =>
    rcases Store.insert_cases later (m.within ns) s with same | ⟨_, created, puts⟩
    · exact Or.inr (Or.inl same)
    · refine Or.inr (Or.inr ⟨orderly.of_insert rfl created puts, _, _, puts, Or.inr ?_⟩)
      exact ⟨now, ns, pod, m, _, injected, rfl⟩
  | go key =>
    have puts : s.Puts (s.withTable .pod (s.pods.erase key)) .pod key none :=
      Store.puts_erase rfl (Nat.le_refl _) (Nat.le_refl _)
    exact Or.inr (Or.inr ⟨orderly.of_puts puts (by simp), key, none, puts, Or.inl rfl⟩)

namespace Store.Leased

variable {claimPrefix key : String} {s s' : Store} {k : Kind} {now : Timestamp}

theorem insert {o : Object k} (h : s.Leased claimPrefix)
    (ok : (UserAct.insert k o now).CreatesApart) (orderly : s'.Orderly)
    (named : s'.ClusterWide .port) (free : s.find k o.key = none)
    (puts : s.Puts s' k o.key (some (o.identified (s.nextIdentity now)))) :
    s'.Leased claimPrefix := by
  obtain ⟨notPod, hasName, fresh, namespaced, noSlash, noSlash', apart⟩ := ok
  by_cases claim : k = .portClaim
  · subst claim
    apply h.of_claims orderly puts
    · intro c eq
      cases eq
      obtain ⟨name, named⟩ := Option.ne_none_iff_exists'.mp hasName
      have within : o.metadata.namespace_ ≠ none := by simp [namespaced, Kind.isNamespaced]
      obtain ⟨ns, within⟩ := Option.ne_none_iff_exists'.mp within
      rw [named] at noSlash
      rw [within] at noSlash'
      refine ⟨⟨ns, name, _, ⟨within, named, rfl, noSlash', noSlash, Or.inl ?_⟩⟩, Or.inr rfl⟩
      exact congrArg (fun status => status.bind ClaimStatus.boundPortName) fresh
    · intro old _ _ found
      rw [free] at found
      contradiction
  by_cases port : k = .port
  · subst port
    apply h.of_ports orderly named puts
    · intro p eq
      cases eq
      constructor
      · intro numbered
        exact absurd (congrArg (fun status => (status.map PortStatus.port).getD 0) fresh) numbered
      · intro uid is
        have key : o.key = o.metadata.name.getD "" := by
          simp [Object.key, Object.ref, ObjectRef.key, namespaced.mpr rfl]
        refine absurd ?_ (apart rfl)
        rw [← key, is, portNameForClaim, String.toList_append]
        exact List.prefix_append _ _
    · intro _ _ _ old _ _ _ found
      rw [free] at found
      contradiction
  · exact h.of_puts orderly puts claim port fun _ _ pod => absurd pod notPod

theorem erase {old : Object k} (h : s.Leased claimPrefix) (orderly : s'.Orderly)
    (named : s'.ClusterWide .port) (found : s.find k key = some old)
    (empty : old.metadata.finalizerList = []) (puts : s.Puts s' k key none) :
    s'.Leased claimPrefix := by
  by_cases claim : k = .portClaim
  · subst claim
    apply h.of_nextClaim orderly found puts
    · intro c eq
      contradiction
    · intro held
      exact absurd empty (Object.held_of_isProtected held)
  by_cases port : k = .port
  · subst port
    apply h.of_nextPort orderly named found puts
    · intro p eq
      contradiction
    · intro held
      exact absurd empty held
  · apply h.of_puts orderly puts claim port
    intro pod found' kinds
    subst kinds
    rw [puts.here] at found'
    contradiction

theorem mark {old : Object k} (h : s.Leased claimPrefix) (orderly : s'.Orderly)
    (named : s'.ClusterWide .port) (found : s.find k key = some old)
    (puts : s.Puts s' k key (some (old.marked now s.nextVersion))) : s'.Leased claimPrefix := by
  by_cases claim : k = .portClaim
  · subst claim
    apply h.of_nextClaim orderly found puts
    · intro c eq
      cases eq
      exact ⟨Object.marked_succeeds .., Or.inr (Or.inl rfl)⟩
    · intro held past _
      exact ⟨_, rfl, held, past⟩
  by_cases port : k = .port
  · subst port
    apply h.of_nextPort orderly named found puts
    · intro p eq
      cases eq
      exact ⟨Object.marked_succeeds .., h.numbered key old found, id⟩
    · intro _ _ _
      exact ⟨_, rfl, rfl⟩
  · apply h.of_puts orderly puts claim port
    intro pod found' kinds
    subst kinds
    rw [puts.here] at found'
    cases found'
    exact h.pods key old found

theorem perform (h : s.Leased claimPrefix) {a : UserAct} (ok : a.CreatesApart) :
    (a.perform s).Leased claimPrefix := by
  have orderly := h.orderly.perform a
  have named : (a.perform s).ClusterWide .port := by
    apply h.ports.perform
    intro p now is
    subst is
    exact ⟨ok.2.1, ok.2.2.2.1.mpr rfl⟩
  rcases a.perform_cases s with same | ⟨k, o, now, rfl, free, _, puts⟩ |
    ⟨k, ref, now, old, rfl, found, ⟨empty, puts⟩ | ⟨_, _, puts⟩⟩
  · exact h.of_unchanged same
  · exact h.insert ok orderly named free puts
  · exact h.erase orderly named found empty puts
  · exact h.mark orderly named found puts

theorem backs (h : s.Leased claimPrefix) {ns claimName : String} {n : UInt16}
    (resolves : s.Resolves ns claimName n) : s.Backs ns claimName (Int.ofNat n.toNat) := by
  obtain ⟨c, p, found, phase, held, foundPort, _, numbered, rfl⟩ := resolves
  obtain ⟨_, _, uid, is⟩ := h.claims _ c found
  rw [is.backingPortName, Option.getD_some] at foundPort
  exact ⟨c, uid, p, found, is.identified, held, phase, foundPort, numbered, rfl⟩

theorem serves {prefixes : AnnotationPrefixes} (apart : prefixes.claim ≠ prefixes.port)
    (noSlash : '/' ∉ prefixes.claim.toList) (noSlash' : '/' ∉ prefixes.port.toList)
    (h : s.Leased prefixes.claim) {ns : String} {pod m : Pod} (i : Identity)
    (injected : (s.run now (Injection.inject prefixes ns pod)).1 = .ok m) :
    s.Serves prefixes.claim ((m.within ns).identified i) := by
  refine ⟨ns, rfl, ?_⟩
  intro i j cp placed positive
  obtain ⟨name, claimName, n, named, annotated, resolves, set⟩ :=
    Injection.inject_claimed injected placed positive
  have keeps := Injection.inject_keeps_claim (keys_apart apart noSlash noSlash') injected name
  refine ⟨claimName, ?_, ?_⟩
  · rw [Pod.claimFor, named]
    exact keeps.trans annotated
  · rw [set]
    exact h.backs resolves

theorem act {prefixes : AnnotationPrefixes} (apart : prefixes.claim ≠ prefixes.port)
    (noSlash : '/' ∉ prefixes.claim.toList) (noSlash' : '/' ∉ prefixes.port.toList)
    (h : s.Leased prefixes.claim) (acts : WorkloadAct prefixes s s') :
    s'.Leased prefixes.claim := by
  rcases acts.cases h.orderly with ⟨a, ok, rfl⟩ | rfl | ⟨orderly, key, new, puts, source⟩
  · exact h.perform ok
  · exact h
  · apply h.of_puts orderly puts (by decide) (by decide)
    intro stored found _
    rcases source with gone | ⟨now, ns, pod, m, i, injected, come⟩
    · rw [puts.here, gone] at found
      contradiction
    · rw [puts.here, come] at found
      cases found
      exact h.serves apart noSlash noSlash' i injected

end Store.Leased

theorem UserAct.CreatesApart.plain {a : UserAct} (ok : a.CreatesApart) : a.CreatesPlainPorts := by
  cases a with
  | insert k o now =>
    cases k with
    | port =>
      obtain ⟨_, named, fresh, namespaced, _⟩ := ok
      refine ⟨named, namespaced.mpr rfl, ?_⟩
      exact congrArg (fun status => (status.map PortStatus.port).getD 0) fresh
    | portClass => trivial
    | portPool => trivial
    | portClaim => trivial
    | pod => trivial
  | delete k ref now => trivial
  | failNextStatusWrite => trivial

theorem Store.Numbered.act {prefixes : AnnotationPrefixes} {s s' : Store} (h : s.Numbered)
    (acts : WorkloadAct prefixes s s') : s'.Numbered := by
  rcases acts.cases h.orderly with ⟨a, ok, rfl⟩ | rfl | ⟨orderly, _, _, puts, _⟩
  · exact h.perform ok.plain
  · exact h
  · have same : ∀ key, s'.find .port key = s.find .port key := puts.find_other (by decide)
    exact h.of_noNewNumbers orderly (h.named.of_same same) (.of_same same)

theorem Store.Leased.backs_unique {claimPrefix : String} {s : Store} (h : s.Leased claimPrefix)
    (numbered : s.Numbered) {ns ns' claimName claimName' : String} {n : Int}
    (backs : s.Backs ns claimName n) (backs' : s.Backs ns' claimName' n) :
    ns = ns' ∧ claimName = claimName' := by
  obtain ⟨c, uid, p, found, identified, _, _, foundPort, held, is⟩ := backs
  obtain ⟨c', uid', p', found', identified', _, _, foundPort', _, is'⟩ := backs'
  have number : p.number = p'.number := UInt16.toNat_inj.mp (Int.ofNat.inj (is.symm.trans is'))
  have port := numbered.distinct _ p _ p' foundPort foundPort' held number
  cases portNameForClaim_injective port
  have key := h.orderly.distinct _ _ c _ c' found found' (identified.trans identified'.symm)
  obtain ⟨_, _, _, claim⟩ := h.claims _ c found
  have own := (h.orderly.keyed _ _ c found).symm.trans claim.key
  obtain ⟨rfl, rfl⟩ := single_slash claim.noSlash claim.noSlash' own.symm
  exact single_slash claim.noSlash claim.noSlash' key

theorem Pod.mem_hostPorts {pod : Pod} {cp : ContainerPort} (listed : cp ∈ pod.hostPorts) :
    (∃ i j, Injection.portAt pod i j = some cp) ∧ 0 < cp.hostPort.getD 0 := by
  obtain ⟨c, member, listed⟩ := List.mem_flatMap.mp listed
  obtain ⟨listed, positive⟩ := List.mem_filter.mp listed
  obtain ⟨i, foundC⟩ := List.mem_iff_getElem?.mp member
  obtain ⟨j, found⟩ := List.mem_iff_getElem?.mp listed
  refine ⟨⟨i, j, ?_⟩, by simpa using positive⟩
  rw [Injection.portAt, foundC]
  exact found

/-- Every host port of a pod is the number of the claim that the pod names for it, and pods that
share a host port share the claim. -/
theorem host_ports_exclusive {prefixes : AnnotationPrefixes}
    (apart : prefixes.claim ≠ prefixes.port) (noSlash : '/' ∉ prefixes.claim.toList)
    (noSlash' : '/' ∉ prefixes.port.toList) {s : Store}
    (reachable : SeriallyReachable (WorkloadAct prefixes) prefixes.claim s) :
    (∀ key (pod : Pod), s.find .pod key = some pod → ∀ cp ∈ pod.hostPorts,
      ∃ ns claimName portName, pod.metadata.namespace_ = some ns ∧
        pod.claimFor prefixes.claim cp = some claimName ∧
        ∃ (c : PortClaim) (p : Port), s.find .portClaim (ns ++ "/" ++ claimName) = some c ∧
          c.backingPortName = some portName ∧ s.find .port portName = some p ∧
          cp.hostPort = some (Int.ofNat p.number.toNat)) ∧
      ∀ key (pod : Pod) key' (pod' : Pod),
        s.find .pod key = some pod → s.find .pod key' = some pod' →
        ∀ cp ∈ pod.hostPorts, ∀ cp' ∈ pod'.hostPorts, cp.hostPort = cp'.hostPort →
          pod.metadata.namespace_ = pod'.metadata.namespace_ ∧
            pod.claimFor prefixes.claim cp = pod'.claimFor prefixes.claim cp' := by
  have leased : s.Leased prefixes.claim :=
    Discipline.inv_of_seriallyReachable (Discipline.leases_upheld prefixes.claim) Store.Leased.empty
      (Store.Leased.act apart noSlash noSlash') reachable
  have numbered : s.Numbered :=
    Discipline.inv_of_seriallyReachable (Discipline.numbers_upheld prefixes.claim)
      Store.Numbered.empty Store.Numbered.act reachable
  have served : ∀ key (pod : Pod), s.find .pod key = some pod → ∀ cp ∈ pod.hostPorts,
      ∃ ns claimName, pod.metadata.namespace_ = some ns ∧
        pod.claimFor prefixes.claim cp = some claimName ∧
        s.Backs ns claimName (cp.hostPort.getD 0) := by
    intro key pod stored cp listed
    obtain ⟨⟨i, j, placed⟩, positive⟩ := Pod.mem_hostPorts listed
    obtain ⟨ns, within, ports⟩ := leased.pods key pod stored
    obtain ⟨claimName, names, backs⟩ := ports i j cp placed positive
    exact ⟨ns, claimName, within, names, backs⟩
  constructor
  · intro key pod stored cp listed
    obtain ⟨ns, claimName, within, names, c, uid, p, found, identified, _, _, foundPort, _, is⟩ :=
      served key pod stored cp listed
    obtain ⟨_, _, uid', claim⟩ := leased.claims _ c found
    cases claim.identified.symm.trans identified
    have positive := (Pod.mem_hostPorts listed).2
    refine ⟨ns, claimName, _, within, names, c, p, found, claim.backingPortName, foundPort, ?_⟩
    rw [← is]
    cases hostPort : cp.hostPort with
    | none => simp [hostPort] at positive
    | some n => rfl
  · intro key pod key' pod' stored stored' cp listed cp' listed' same
    obtain ⟨ns, claimName, within, names, backs⟩ := served key pod stored cp listed
    obtain ⟨ns', claimName', within', names', backs'⟩ := served key' pod' stored' cp' listed'
    rw [← same] at backs'
    obtain ⟨rfl, rfl⟩ := leased.backs_unique numbered backs backs'
    exact ⟨within.trans within'.symm, names.trans names'.symm⟩

open Cluster (noon)

def boundClaim : List SerialMove :=
  [.act (.insert .portClass ⟨{ name := some "c" }, ⟨⟩, none⟩ noon),
    .act (.insert .portPool ⟨{ name := some "n" }, ⟨"c", 5000, 5009, true⟩, none⟩ noon),
    .act (.insert .portClaim
      ⟨{ name := some "web", namespace_ := some "t",
         finalizers := some [ProtectionToken.ofClaim.text] }, ⟨"c"⟩, none⟩ noon),
    .pass noon .portPool ⟨none, "n"⟩, .pass noon .portPool ⟨none, "n"⟩,
    .pass noon .portPool ⟨none, "n"⟩, .pass noon .portClaim ⟨some "t", "web"⟩,
    .pass noon .portClaim ⟨some "t", "web"⟩, .pass noon .port ⟨none, "claim-" ++ Store.uidOf 3⟩,
    .pass noon .port ⟨none, "claim-" ++ Store.uidOf 3⟩]

def webPod : Pod :=
  { metadata := { name := some "a", annotations := some (.ofList [("claims/http", "web")]) }
    spec := some ⟨[⟨"web", some [⟨80, none, some "http"⟩]⟩], none⟩
    status := none }

def unboundClaim : List SerialMove :=
  [.act (.delete .portClaim ⟨some "t", "web"⟩ noon), .pass noon .portClaim ⟨some "t", "web"⟩,
    .pass noon .portClaim ⟨some "t", "web"⟩,
    .act (.delete .port ⟨none, "claim-" ++ Store.uidOf 3⟩ noon),
    .pass noon .port ⟨none, "claim-" ++ Store.uidOf 3⟩,
    .pass noon .port ⟨none, "claim-" ++ Store.uidOf 3⟩]

def servedStore (prefixes : AnnotationPrefixes) : Store :=
  let s := boundClaim.foldl (SerialMove.play prefixes.claim) {}
  match (s.run noon (Injection.inject prefixes "t" webPod)).1 with
  | .ok m => unboundClaim.foldl (SerialMove.play prefixes.claim) (s.insert noon (m.within "t")).2
  | .error _ => s

theorem servedStore_reachable (prefixes : AnnotationPrefixes) :
    SeriallyReachable (WorkloadAct prefixes) prefixes.claim (servedStore prefixes) := by
  have bound : SeriallyReachable (WorkloadAct prefixes) prefixes.claim
      (boundClaim.foldl (SerialMove.play prefixes.claim) {}) :=
    SerialMove.reachable boundClaim .refl (fun _ a ok => .user a ok) (by decide +kernel)
  unfold servedStore
  simp only
  split
  next m injected =>
    exact SerialMove.reachable unboundClaim (bound.tail (.other (.come noon noon "t" injected)))
      (fun _ a ok => .user a ok) (by decide +kernel)
  next => exact bound

theorem host_ports_exclusive_leaving :
    let s := servedStore ⟨"claims", "ports"⟩
    ∃ (pod : Pod) (cp : ContainerPort) (ns claimName : String) (c : PortClaim) (p : Port),
      s.find .pod "t/a" = some pod ∧ cp ∈ pod.hostPorts ∧ cp.hostPort = some 5000 ∧
      pod.claimFor "claims" cp = some claimName ∧
      s.find .portClaim (ns ++ "/" ++ claimName) = some c ∧
      s.find .port (c.backingPortName.getD "") = some p ∧ p.number.toNat = 5000 := by
  intro s
  have present : (s.find .pod "t/a").any (fun pod => (Pod.hostPorts pod).any fun cp =>
      cp.hostPort = some 5000) = true := by decide +kernel
  obtain ⟨pod, stored, hosts⟩ := (Option.any_eq_true ..).mp present
  obtain ⟨cp, listed, is⟩ := List.any_eq_true.mp hosts
  have number : cp.hostPort = some 5000 := by simpa using is
  have exclusive := host_ports_exclusive (by decide) (by decide) (by decide)
    (servedStore_reachable ⟨"claims", "ports"⟩)
  obtain ⟨ns, claimName, _, _, names, c, p, found, backing, foundPort, same⟩ :=
    exclusive.1 "t/a" pod stored cp listed
  refine ⟨pod, cp, ns, claimName, c, p, stored, listed, number, names, found, ?_, ?_⟩
  · rw [backing]
    exact foundPort
  · rw [number] at same
    exact Int.ofNat.inj (Option.some.inj same).symm

end HostPorts
