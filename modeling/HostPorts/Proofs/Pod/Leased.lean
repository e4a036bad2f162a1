import HostPorts.Proofs.Admission.Injection
import HostPorts.Proofs.Pass.Runs

/-!
What pods lean on. A pod with a host port names a claim, and the port behind that claim holds the
number. The claim stays because the pod names it, the port stays because the claim is stored, and
the port keeps its number because only pending ports get one: no pass breaks this.
-/
namespace HostPorts

def Pod.hostPorts (pod : Pod) : List ContainerPort :=
  (Injection.containersOf pod).flatMap fun c =>
    (c.ports.getD []).filter fun cp => 0 < cp.hostPort.getD 0

def Pod.claimFor (claimPrefix : String) (pod : Pod) (cp : ContainerPort) : Option String :=
  cp.name.bind fun name => pod.metadata.annotationMap.find? (claimPrefix ++ "/" ++ name)

/-- Settled, or under deletion after that. -/
def Object.PastPending {k : Kind} (o : Object k) : Prop :=
  o.phase = some .settled ∨ o.phase = some .deleting

namespace PortClaim

structure Is (c : PortClaim) (ns name uid : String) : Prop where
  within : c.metadata.namespace_ = some ns
  named : c.metadata.name = some name
  identified : c.metadata.uid = some uid
  noSlash : '/' ∉ ns.toList
  noSlash' : '/' ∉ name.toList
  bound : boundPortName c = none ∨ boundPortName c = some (portNameForClaim uid)

variable {c c' : PortClaim} {ns name uid : String}

theorem Is.key (h : c.Is ns name uid) : Object.key c = ns ++ "/" ++ name := by
  simp [Object.key, Object.ref, ObjectRef.key, h.within, h.named]

theorem Is.displayName (h : c.Is ns name uid) : Object.displayName c = name := by
  simp [Object.displayName, Metadata.displayName, h.named]

theorem Is.backingPortName (h : c.Is ns name uid) :
    c.backingPortName = some (portNameForClaim uid) := by
  unfold PortClaim.backingPortName
  rw [h.identified]
  rcases h.bound with none | some
  · rw [none]
    rfl
  · rw [some]
    rfl

structure Follows (c old : PortClaim) : Prop where
  succeeds : Object.Succeeds c old
  bound : boundPortName c = none ∨ boundPortName c = boundPortName old ∨
    ∃ uid, old.metadata.uid = some uid ∧ boundPortName c = some (portNameForClaim uid)

theorem Is.next (h : c.Is ns name uid) (follows : c'.Follows c) : c'.Is ns name uid := by
  obtain ⟨succeeds, bound⟩ := follows
  refine ⟨succeeds.namespace_.trans h.within, succeeds.name.trans h.named,
    succeeds.uid.trans h.identified, h.noSlash, h.noSlash', ?_⟩
  rcases bound with none | same | ⟨uid', identified, some⟩
  · exact Or.inl none
  · rw [same]
    exact h.bound
  · rw [h.identified] at identified
    cases identified
    exact Or.inr some

end PortClaim

structure Port.Follows (p old : Port) : Prop where
  succeeds : Object.Succeeds p old
  numbered : number p ≠ 0 → p.PastPending
  held : old.metadata.finalizerList ≠ [] → p.metadata.finalizerList ≠ []

namespace Store

/-- The claim's port holds the number, and neither claim nor port is going to leave while the claim
is used. -/
def Backs (s : Store) (ns claimName : String) (n : Int) : Prop :=
  ∃ (c : PortClaim) (uid : String) (p : Port),
    s.find .portClaim (ns ++ "/" ++ claimName) = some c ∧ c.metadata.uid = some uid ∧
      c.isProtected = true ∧ c.PastPending ∧
      s.find .port (portNameForClaim uid) = some p ∧ p.number ≠ 0 ∧ n = Int.ofNat p.number.toNat

def Uses (s : Store) (claimPrefix ns claimName : String) : Prop :=
  ∃ key pod portName, s.find .pod key = some pod ∧ pod.metadata.namespace_ = some ns ∧
    (portName, claimName) ∈ claimAnnotations pod.metadata claimPrefix

def Serves (s : Store) (claimPrefix : String) (pod : Pod) : Prop :=
  ∃ ns, pod.metadata.namespace_ = some ns ∧
    ∀ i j cp, Injection.portAt pod i j = some cp → 0 < cp.hostPort.getD 0 →
      ∃ claimName, pod.claimFor claimPrefix cp = some claimName ∧
        s.Backs ns claimName (cp.hostPort.getD 0)

/-- No claim has the uid but the one that is meant, now or later. -/
structure Denotes (s : Store) (uid : String) (r : ClaimReference) : Prop where
  same : r.uid = uid
  given : ∃ n ≤ s.created, uid = uidOf n
  only : ∀ key (c : PortClaim), s.find .portClaim key = some c → c.metadata.uid = some uid →
    key = r.namespace_ ++ "/" ++ r.name

structure Belongs (s : Store) (uid : String) (p : Port) : Prop where
  held : p.metadata.finalizerList ≠ []
  owner : ∃ r, p.spec.claimRef = some r ∧ s.Denotes uid r

structure Leased (claimPrefix : String) (s : Store) : Prop where
  orderly : s.Orderly
  ports : s.ClusterWide .port
  claims : ∀ key (c : PortClaim), s.find .portClaim key = some c → ∃ ns name uid, c.Is ns name uid
  numbered : ∀ key (p : Port), s.find .port key = some p → p.number ≠ 0 → p.PastPending
  backing : ∀ uid (p : Port), s.find .port (portNameForClaim uid) = some p → s.Belongs uid p
  pods : ∀ key pod, s.find .pod key = some pod → s.Serves claimPrefix pod

structure NextClaim (s : Store) (key : String) (c : PortClaim) : Prop where
  proper : ∃ ns name uid, c.Is ns name uid
  origin : (∃ old : PortClaim, s.find .portClaim key = some old ∧
    old.metadata.uid = c.metadata.uid) ∨ c.metadata.uid = some (uidOf (s.created + 1))

structure NextPort (s : Store) (key : String) (p : Port) : Prop where
  numbered : Port.number p ≠ 0 → p.PastPending
  backing : ∀ uid, key = portNameForClaim uid → s.Belongs uid p

variable {claimPrefix : String} {s s' : Store}

theorem Backs.keep {ns claimName : String} {n : Int} (h : s.Backs ns claimName n)
    (claims : ∀ c : PortClaim, s.find .portClaim (ns ++ "/" ++ claimName) = some c →
      c.isProtected = true → c.PastPending →
      ∃ c' : PortClaim, s'.find .portClaim (ns ++ "/" ++ claimName) = some c' ∧
        c'.metadata.uid = c.metadata.uid ∧ c'.isProtected = true ∧ c'.PastPending)
    (ports : ∀ uid (c : PortClaim) (p : Port), s.find .portClaim (ns ++ "/" ++ claimName) = some c →
      c.metadata.uid = some uid → s.find .port (portNameForClaim uid) = some p → p.number ≠ 0 →
      ∃ p' : Port, s'.find .port (portNameForClaim uid) = some p' ∧ p'.number = p.number) :
    s'.Backs ns claimName n := by
  obtain ⟨c, uid, p, found, identified, held, past, foundPort, numbered, is⟩ := h
  obtain ⟨c', found', same, held', past'⟩ := claims c found held past
  obtain ⟨p', foundPort', number⟩ := ports uid c p found identified foundPort numbered
  refine ⟨c', uid, p', found', same.trans identified, held', past', foundPort', ?_, ?_⟩
  · rwa [number]
  · rwa [number]

theorem Uses.of_claimFor {key ns claimName : String} {pod : Pod} {cp : ContainerPort}
    (stored : s.find .pod key = some pod) (within : pod.metadata.namespace_ = some ns)
    (names : pod.claimFor claimPrefix cp = some claimName) : s.Uses claimPrefix ns claimName := by
  obtain ⟨portName, _, annotated⟩ := Option.bind_eq_some_iff.mp names
  exact ⟨key, pod, portName, stored, within, mem_claimAnnotations.mpr annotated⟩

theorem Serves.keep {pod : Pod} (h : s.Serves claimPrefix pod)
    (kept : ∀ ns cp claimName n, pod.metadata.namespace_ = some ns →
      pod.claimFor claimPrefix cp = some claimName → s.Backs ns claimName n →
      s'.Backs ns claimName n) : s'.Serves claimPrefix pod := by
  obtain ⟨ns, within, served⟩ := h
  refine ⟨ns, within, ?_⟩
  intro i j cp found positive
  obtain ⟨claimName, names, backs⟩ := served i j cp found positive
  exact ⟨claimName, names, kept ns cp claimName _ within names backs⟩

theorem Denotes.keep {uid : String} {r : ClaimReference} (h : s.Denotes uid r)
    (created : s.created ≤ s'.created)
    (claims : ∀ key (c : PortClaim), s'.find .portClaim key = some c → s.NextClaim key c) :
    s'.Denotes uid r := by
  obtain ⟨m, le, given⟩ := h.given
  refine ⟨h.same, ⟨m, by omega, given⟩, ?_⟩
  intro key c found identified
  rcases (claims key c found).origin with ⟨old, foundOld, same⟩ | fresh
  · exact h.only key old foundOld (same.trans identified)
  · rw [identified, given] at fresh
    have := uidOf_injective (Option.some.inj fresh)
    omega

theorem Denotes.hasClaim {uid key : String} {r : ClaimReference} {c : PortClaim}
    (h : s.Denotes uid r) (found : s.find .portClaim key = some c)
    (identified : c.metadata.uid = some uid) : s.hasClaim r = true := by
  rw [h.only key c found identified] at found
  unfold Store.hasClaim
  change ((s.find .portClaim (r.namespace_ ++ "/" ++ r.name)).any _) = true
  rw [found, Option.any_some, identified, h.same]
  simp

namespace Leased

theorem empty : Leased claimPrefix {} := by
  refine ⟨.empty, .empty, ?_, ?_, ?_, ?_⟩
  · intro key c found
    exact absurd found not_find_empty
  · intro key p found
    exact absurd found not_find_empty
  · intro uid p found
    exact absurd found not_find_empty
  · intro key pod found
    exact absurd found not_find_empty

variable {key : String}

theorem nextClaim (h : s.Leased claimPrefix) {c : PortClaim}
    (found : s.find .portClaim key = some c) : s.NextClaim key c :=
  ⟨h.claims key c found, Or.inl ⟨c, found, rfl⟩⟩

theorem nextPort (h : s.Leased claimPrefix) {p : Port} (found : s.find .port key = some p) :
    s.NextPort key p := by
  refine ⟨h.numbered key p found, ?_⟩
  intro uid is
  rw [is] at found
  exact h.backing uid p found

theorem of_parts (orderly : s'.Orderly) (named : s'.ClusterWide .port)
    (created : s.created ≤ s'.created)
    (claims : ∀ key (c : PortClaim), s'.find .portClaim key = some c → s.NextClaim key c)
    (ports : ∀ key (p : Port), s'.find .port key = some p → s.NextPort key p)
    (pods : ∀ key pod, s'.find .pod key = some pod → s.Serves claimPrefix pod)
    (backs : ∀ ns claimName n, s'.Uses claimPrefix ns claimName → s.Backs ns claimName n →
      s'.Backs ns claimName n) : s'.Leased claimPrefix where
  orderly := orderly
  ports := named
  claims key c found := (claims key c found).proper
  numbered key p found := (ports key p found).numbered
  backing uid p found := by
    obtain ⟨held, r, owner, denotes⟩ := (ports _ p found).backing uid rfl
    exact ⟨held, r, owner, denotes.keep created claims⟩
  pods key pod found := by
    apply (pods key pod found).keep
    intro ns cp claimName n within names
    exact backs ns claimName n (.of_claimFor found within names)

theorem of_claims (h : s.Leased claimPrefix) (orderly : s'.Orderly) {new : Option PortClaim}
    (puts : s.Puts s' .portClaim key new) (heir : ∀ c : PortClaim, new = some c → s.NextClaim key c)
    (kept : ∀ (old : PortClaim) ns claimName, s.find .portClaim key = some old →
      old.isProtected = true → old.PastPending → key = ns ++ "/" ++ claimName →
      s.Uses claimPrefix ns claimName → ∃ c : PortClaim, new = some c ∧
        c.metadata.uid = old.metadata.uid ∧ c.isProtected = true ∧ c.PastPending) :
    s'.Leased claimPrefix := by
  have samePorts : ∀ key, s'.find .port key = s.find .port key := puts.find_other (by decide)
  have samePods : ∀ key, s'.find .pod key = s.find .pod key := puts.find_other (by decide)
  apply of_parts orderly (h.ports.of_same samePorts) puts.created_le
  · intro key' c found
    rcases puts.find_same found with ⟨rfl, eq⟩ | ⟨_, old⟩
    · exact heir c eq
    · exact h.nextClaim old
  · intro key' p found
    exact h.nextPort ((samePorts key').symm.trans found)
  · intro key' pod found
    exact h.pods key' pod ((samePods key').symm.trans found)
  · intro ns claimName n used backs
    obtain ⟨podKey, pod, portName, stored, named⟩ := used
    have before : s.Uses claimPrefix ns claimName :=
      ⟨podKey, pod, portName, (samePods podKey).symm.trans stored, named⟩
    apply backs.keep
    · intro c found held past
      by_cases here : ns ++ "/" ++ claimName = key
      · rw [here, puts.here]
        rw [here] at found
        exact kept c ns claimName found held past here.symm before
      · exact ⟨c, (puts.beside _ here).trans found, rfl, held, past⟩
    · intro uid _ p _ _ found _
      exact ⟨p, (samePorts _).trans found, rfl⟩

theorem of_nextClaim (h : s.Leased claimPrefix) (orderly : s'.Orderly) {old : PortClaim}
    {new : Option PortClaim} (here : s.find .portClaim key = some old)
    (puts : s.Puts s' .portClaim key new) (heir : ∀ c : PortClaim, new = some c → c.Follows old)
    (kept : old.isProtected = true → old.PastPending →
      (∀ ns name uid, old.Is ns name uid → s.Uses claimPrefix ns name) →
      ∃ c : PortClaim, new = some c ∧ c.isProtected = true ∧ c.PastPending) :
    s'.Leased claimPrefix := by
  obtain ⟨ns, name, uid, is⟩ := h.claims key old here
  apply h.of_claims orderly puts
  · intro c eq
    have follows := heir c eq
    exact ⟨⟨ns, name, uid, is.next follows⟩, Or.inl ⟨old, here, follows.succeeds.uid.symm⟩⟩
  · intro old' ns' claimName found held past under used
    rw [here] at found
    cases found
    rw [← h.orderly.keyed _ key old here, is.key] at under
    obtain ⟨rfl, rfl⟩ := single_slash is.noSlash is.noSlash' under
    have uses : ∀ ns' name' uid', old.Is ns' name' uid' → s.Uses claimPrefix ns' name' := by
      intro ns' name' uid' is'
      cases is.within.symm.trans is'.within
      cases is.named.symm.trans is'.named
      exact used
    obtain ⟨c, eq, held', past'⟩ := kept held past uses
    exact ⟨c, eq, (heir c eq).succeeds.uid, held', past'⟩

theorem of_ports (h : s.Leased claimPrefix) (orderly : s'.Orderly) (named : s'.ClusterWide .port)
    {new : Option Port} (puts : s.Puts s' .port key new)
    (heir : ∀ p : Port, new = some p → s.NextPort key p)
    (kept : ∀ uid key' (c : PortClaim) (old : Port), key = portNameForClaim uid →
      s.find .portClaim key' = some c → c.metadata.uid = some uid → s.find .port key = some old →
      old.number ≠ 0 → ∃ p : Port, new = some p ∧ p.number = old.number) :
    s'.Leased claimPrefix := by
  have sameClaims : ∀ key, s'.find .portClaim key = s.find .portClaim key :=
    puts.find_other (by decide)
  apply of_parts orderly named puts.created_le
  · intro key' c found
    exact h.nextClaim ((sameClaims key').symm.trans found)
  · intro key' p found
    rcases puts.find_same found with ⟨rfl, eq⟩ | ⟨_, old⟩
    · exact heir p eq
    · exact h.nextPort old
  · intro key' pod found
    exact h.pods key' pod ((puts.find_other (by decide) key').symm.trans found)
  · intro ns claimName n _ backs
    apply backs.keep
    · intro c found held past
      exact ⟨c, (sameClaims _).trans found, rfl, held, past⟩
    · intro uid c p found identified foundPort numbered
      by_cases here : portNameForClaim uid = key
      · rw [here, puts.here]
        rw [here] at foundPort
        exact kept uid _ c p here.symm found identified foundPort numbered
      · exact ⟨p, (puts.beside _ here).trans foundPort, rfl⟩

theorem of_nextPort (h : s.Leased claimPrefix) (orderly : s'.Orderly) (named : s'.ClusterWide .port)
    {old : Port} {new : Option Port} (here : s.find .port key = some old)
    (puts : s.Puts s' .port key new) (heir : ∀ p : Port, new = some p → p.Follows old)
    (kept : old.metadata.finalizerList ≠ [] → old.PastPending →
      (∃ r, old.spec.claimRef = some r ∧ s.hasClaim r = true) →
      ∃ p : Port, new = some p ∧ p.number = old.number) : s'.Leased claimPrefix := by
  apply h.of_ports orderly named puts
  · intro p eq
    obtain ⟨succeeds, numbered, held⟩ := heir p eq
    refine ⟨numbered, ?_⟩
    intro uid is
    obtain ⟨heldOld, r, owner, denotes⟩ := (h.nextPort here).backing uid is
    exact ⟨held heldOld, r, by rw [succeeds.spec, owner], denotes⟩
  · intro uid _ c old' is foundClaim identified found numbered
    rw [here] at found
    cases found
    obtain ⟨held, r, owner, denotes⟩ := (h.nextPort here).backing uid is
    have live := denotes.hasClaim foundClaim identified
    exact kept held (h.numbered key old here numbered) ⟨r, owner, live⟩

theorem of_pods (h : s.Leased claimPrefix) (orderly : s'.Orderly) (created : s.created ≤ s'.created)
    (sameClaims : ∀ key, s'.find .portClaim key = s.find .portClaim key)
    (samePorts : ∀ key, s'.find .port key = s.find .port key)
    (pods : ∀ key pod, s'.find .pod key = some pod → s.Serves claimPrefix pod) :
    s'.Leased claimPrefix := by
  refine of_parts orderly (h.ports.of_same samePorts) created ?_ ?_ pods ?_
  · intro key c found
    exact h.nextClaim ((sameClaims key).symm.trans found)
  · intro key p found
    exact h.nextPort ((samePorts key).symm.trans found)
  · intro ns claimName n _ backs
    apply backs.keep
    · intro c found held past
      exact ⟨c, (sameClaims _).trans found, rfl, held, past⟩
    · intro uid _ p _ _ found _
      exact ⟨p, (samePorts _).trans found, rfl⟩

theorem of_unchanged (h : s.Leased claimPrefix) (same : s.Unchanged s') :
    s'.Leased claimPrefix := by
  refine h.of_pods (h.orderly.of_unchanged same) (Nat.le_of_eq same.created.symm)
    (same.find .portClaim) (same.find .port) ?_
  intro key pod found
  exact h.pods key pod ((same.find .pod key).symm.trans found)

theorem of_puts {k : Kind} {new : Option (Object k)} (h : s.Leased claimPrefix)
    (orderly : s'.Orderly) (puts : s.Puts s' k key new) (claim : k ≠ .portClaim) (port : k ≠ .port)
    (heir : ∀ pod, s'.find .pod key = some pod → k = .pod → s.Serves claimPrefix pod) :
    s'.Leased claimPrefix := by
  refine h.of_pods orderly puts.created_le (puts.find_other (Ne.symm claim))
    (puts.find_other (Ne.symm port)) ?_
  intro key' pod found
  by_cases kinds : k = .pod
  · subst kinds
    by_cases here : key' = key
    · subst here
      exact heir pod found rfl
    · exact h.pods key' pod ((puts.beside key' here).symm.trans found)
  · exact h.pods key' pod ((puts.find_other (Ne.symm kinds) key').symm.trans found)

end Leased
end Store

namespace Discipline

def leases (claimPrefix : String) : Discipline := solo (Store.Leased claimPrefix) (·.orderly)

variable {claimPrefix key : String} {s s' : Store} {sec : Section}

theorem unused_of_clearClaim {c : PortClaim} {ns name uid : String} (is : c.Is ns name uid)
    (clear : (leases claimPrefix).Clear claimPrefix c s) : ¬ s.Uses claimPrefix ns name := by
  rintro ⟨podKey, pod, portName, stored, within, named⟩
  obtain ⟨_, unused⟩ := clear.of_solo
  have free := unused pod (Store.mem_values.mpr ⟨podKey, stored⟩)
  rw [is.within, is.displayName] at free
  have uses : PortClaim.isUsedBy name claimPrefix pod = true :=
    List.any_eq_true.mpr ⟨_, named, by simp⟩
  rw [free within] at uses
  contradiction

theorem leases_claimDeed (valid : s.Leased claimPrefix) (orderly : s'.Orderly)
    {new : Option PortClaim} (puts : s.Puts s' .portClaim key new)
    (deed : (leases claimPrefix).Deed claimPrefix s sec .portClaim key new) :
    s'.Leased claimPrefix := by
  cases deed with
  | claimPending here live first =>
    apply valid.of_nextClaim orderly here puts
    · intro c' eq
      cases eq
      exact ⟨Object.withStatus_succeeds .., Or.inl rfl⟩
    · intro _ past
      simp [Object.PastPending, first] at past
  | @claimBound c uid here live waiting identified =>
    apply valid.of_nextClaim orderly here puts
    · intro c' eq
      cases eq
      exact ⟨Object.withStatus_succeeds .., Or.inr (Or.inr ⟨uid, identified, rfl⟩)⟩
    · intro _ past
      simp [Object.PastPending, waiting] at past
  | @mark _ c _ here deleted first =>
    apply valid.of_nextClaim orderly here puts
    · intro c' eq
      rw [Object.eq_of_kept eq]
      exact ⟨c.withPhase_succeeds _ _, Or.inr (Or.inl (PortClaim.boundPortName_withPhase c _))⟩
    · intro held _ _
      have metadata := Object.withPhase_metadata c .deleting
      refine ⟨_, Object.kept_of_held ?_, ?_, Or.inr ?_⟩
      · change (c.withPhase .deleting).metadata.finalizerList ≠ []
        rw [metadata]
        exact Object.held_of_isProtected held
      · rw [c.withPhase_only]
        exact held
      · exact Object.phase_withPhase (by decide) c .deleting
  | @release _ c here deleted marked held clear =>
    obtain ⟨ns, name, uid, is⟩ := valid.claims _ c here
    apply valid.of_nextClaim orderly here puts
    · intro c' eq
      rw [Object.eq_of_kept eq]
      refine ⟨c.released_succeeds _, Or.inr (Or.inl ?_)⟩
      exact congrArg (fun status => status.bind ClaimStatus.boundPortName) c.released_status
    · intro _ _ used
      exact absurd (used ns name uid is) (unused_of_clearClaim is clear)

theorem belongs_of_backing {c : PortClaim} {ns uid : String} {i : Identity}
    (valid : s.Leased claimPrefix) (stored : s.find .portClaim key = some c)
    (within : c.metadata.namespace_ = some ns) (identified : c.metadata.uid = some uid) :
    s.Belongs uid ((c.backingPort ns uid).identified i) := by
  constructor
  · simp [Object.identified, PortClaim.backingPort, ProtectionToken.attach,
      ProtectionToken.isHeldBy, Metadata.finalizerList]
  · obtain ⟨n, le, given⟩ := valid.orderly.identified _ key c stored
    obtain ⟨_, name, _, is⟩ := valid.claims key c stored
    cases is.within.symm.trans within
    refine ⟨_, rfl, rfl, ⟨n, le, Option.some.inj (identified.symm.trans given)⟩, ?_⟩
    intro key' c' found identified'
    rw [valid.orderly.distinct _ key' c' key c found stored (identified'.trans identified.symm),
      ← valid.orderly.keyed _ key c stored, is.key, is.displayName]

theorem follows_of_release {p p' : Port} {version : String} (deleted : p.isBeingDeleted = true)
    (marked : p.phase = some .deleting)
    (stays : (p.released.withVersion version).kept = some p') : p'.Follows p := by
  have is := Object.eq_of_kept stays
  have deleted' : (p.released.withVersion version).isBeingDeleted = true := by
    rw [p.released_only]
    exact deleted
  refine ⟨?_, fun _ => Or.inr ?_, fun _ => ?_⟩
  · rw [is]
    exact p.released_succeeds version
  · rw [is]
    have status := congrArg (fun status => status.bind (Object.phaseOf .port)) p.released_status
    exact status.trans marked
  · rcases Object.kept_cases deleted' with ⟨_, held⟩ | gone
    · rwa [is]
    · rw [gone] at stays
      contradiction

theorem leases_portDeed (valid : s.Leased claimPrefix) (orderly : s'.Orderly) {new : Option Port}
    (puts : s.Puts s' .port key new)
    (deed : (leases claimPrefix).Deed claimPrefix s sec .port key new) : s'.Leased claimPrefix := by
  have named := deed.clusterWide puts valid.ports
  cases deed with
  | backing seen live within identified free =>
    apply valid.of_ports orderly named puts
    · intro p eq
      cases eq
      refine ⟨fun numbered => absurd rfl numbered, ?_⟩
      intro uid is
      cases portNameForClaim_injective is
      exact belongs_of_backing valid seen.of_solo within identified
    · intro _ _ _ old _ _ _ found
      rw [free] at found
      contradiction
  | portPending here live first =>
    apply valid.of_nextPort orderly named here puts
    · intro p' eq
      cases eq
      exact ⟨Object.withStatus_succeeds .., fun numbered => absurd rfl numbered, id⟩
    · intro _ past
      simp [Object.PastPending, first] at past
  | allocate here live waiting chosen =>
    apply valid.of_nextPort orderly named here puts
    · intro p' eq
      cases eq
      exact ⟨Object.withStatus_succeeds .., fun _ => Or.inl rfl, id⟩
    · intro _ past
      simp [Object.PastPending, waiting] at past
  | @reclaim p old r _ seen settled owner orphan found same gone =>
    apply valid.of_nextPort orderly named found puts
    · intro p' eq
      rcases gone with ⟨_, none⟩ | ⟨held, now, some⟩
      · rw [none] at eq
        contradiction
      · rw [some] at eq
        cases eq
        exact ⟨Object.marked_succeeds .., valid.numbered _ old found, id⟩
    · intro held _ _
      rcases gone with ⟨empty, _⟩ | ⟨_, now, some⟩
      · exact absurd empty held
      · exact ⟨_, some, rfl⟩
  | @mark _ p _ here deleted first =>
    have metadata := Object.withPhase_metadata p .deleting
    apply valid.of_nextPort orderly named here puts
    · intro p' eq
      rw [Object.eq_of_kept eq]
      refine ⟨p.withPhase_succeeds _ _, fun _ => Or.inr rfl, ?_⟩
      rw [p.withPhase_only]
      exact id
    · intro held _ _
      refine ⟨_, Object.kept_of_held ?_, Port.number_withPhase p .deleting⟩
      change (p.withPhase .deleting).metadata.finalizerList ≠ []
      rwa [metadata]
  | release here deleted marked held clear =>
    apply valid.of_nextPort orderly named here puts
    · intro p' eq
      exact follows_of_release deleted marked eq
    · rintro _ _ ⟨r, owner, live⟩
      -- the pass has found that the claim is gone
      obtain ⟨_, orphan | ⟨_, impossible, _⟩⟩ := (clear r owner).of_solo
      · rw [live] at orphan
        contradiction
      · exact absurd impossible id

/-- Passes keep what pods lean on. -/
theorem leases_upheld (claimPrefix : String) : (leases claimPrefix).Upholds claimPrefix where
  idle valid same := ⟨Store.Leased.of_unchanged valid same, trivial⟩
  deed {sec s s' k key new} valid orderly puts deed := by
    refine ⟨?_, trivial⟩
    change s.Leased claimPrefix at valid
    cases k with
    | portClass =>
      apply valid.of_puts orderly puts (by decide) (by decide)
      intro pod _ kinds
      contradiction
    | portPool =>
      apply valid.of_puts orderly puts (by decide) (by decide)
      intro pod _ kinds
      contradiction
    | portClaim => exact leases_claimDeed valid orderly puts deed
    | port => exact leases_portDeed valid orderly puts deed
    | pod =>
      cases deed with
      | mark controlled => exact absurd rfl controlled
      | release _ _ _ _ clear => exact absurd clear id

end Discipline
end HostPorts
