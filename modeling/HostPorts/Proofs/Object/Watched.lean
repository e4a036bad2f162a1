import HostPorts.Proofs.Object.Goal
import HostPorts.Proofs.Pass.Requests
import HostPorts.Watch

/-!
Whatever keeps a pass from its write is watched. A token is kept, and an orphan or a lost port not
seen to, because of other stored objects (`Detains`); a change of any of these names the object that
waits for it (`dependencies_watched`). One side reads the listings of a pass and the other the
fields of the changed object, so that they agree is an invariant: names are never empty, and a port
that backs a claim names that claim and stands under the name that the claim has recorded.
-/
namespace HostPorts

/-- What users create has a name that is not empty, a namespace if it is a claim or a pod, no
status, and no claim of its own. -/
def UserAct.CreatesNamed : UserAct → Prop
  | .insert k o _ => o.metadata.name ≠ none ∧ o.metadata.name ≠ some "" ∧
    (k.isNamespaced = true → o.metadata.namespace_ ≠ none) ∧ o.status = none ∧ o.StandsAlone
  | _ => True

instance : DecidablePred UserAct.CreatesNamed
  | .insert .. => inferInstanceAs (Decidable (_ ∧ _))
  | .delete .. => isTrue trivial
  | .failNextStatusWrite => isTrue trivial

theorem UserAct.CreatesNamed.unbacked {a : UserAct} (h : a.CreatesNamed) : a.CreatesUnbacked := by
  cases a with
  | insert k o now =>
    obtain ⟨named, _, within, blank, alone⟩ := h
    cases k with
    | portClaim => exact ⟨named, within rfl, blank⟩
    | port => exact alone
    | _ => trivial
  | _ => trivial

/-- Only what is stored beside it keeps a pass from a write for the object: the release of its
token, the deletion of a port without its claim, or the creation of a claim's port. -/
inductive Object.Pends : {k : Kind} → Object k → Prop where
  | release {k : Kind} {o : Object k} (deleted : o.isBeingDeleted = true)
      (marked : o.phase = some .deleting) (held : o.isProtected = true) : Pends o
  | reclaim {p : Port} {r : ClaimReference} (live : p.isBeingDeleted = false)
      (settled : p.phase = some .settled) (owner : p.spec.claimRef = some r) : Pends p
  | heal {c : PortClaim} (live : c.isBeingDeleted = false) (settled : c.phase = some .settled) :
      Pends c

theorem PortClaim.backingPortName_of_uid {c : PortClaim} {uid : String} (recorded : c.Recorded)
    (identity : c.metadata.uid = some uid) : c.backingPortName = some (portNameForClaim uid) := by
  cases bound : c.boundPortName with
  | none => simp [backingPortName, bound, identity]
  | some name =>
    obtain ⟨uid', identity', is⟩ := recorded.own name bound
    cases identity.symm.trans identity'
    simp [backingPortName, bound, is]

namespace Dependency

theorem named_of_ne {name : String} (nonempty : name ≠ "") : named name = some ⟨none, name⟩ :=
  if_neg nonempty

theorem mem_dropRepeats {r : ObjectRef} {refs : List ObjectRef} :
    r ∈ dropRepeats refs ↔ r ∈ refs := by
  fun_induction dropRepeats refs with
  | case1 => rfl
  | case2 => rfl
  | case3 a rest ih => rw [ih]; simp
  | case4 a b rest ne ih =>
    rw [List.mem_cons, ih]
    exact List.mem_cons.symm

theorem mem_podToClaims {pod : Pod} {claimPrefix ns claim : String} (nonempty : claim ≠ "")
    (within : pod.metadata.namespace_ = some ns)
    (uses : PortClaim.isUsedBy claim claimPrefix pod = true) :
    ⟨some ns, claim⟩ ∈ podToClaims pod claimPrefix := by
  obtain ⟨⟨port, name⟩, listed, same⟩ := List.any_eq_true.mp uses
  obtain rfl : name = claim := by simpa using same
  rw [podToClaims, within]
  exact mem_dropRepeats.mpr (List.mem_filterMap.mpr ⟨(port, name), listed, if_neg nonempty⟩)

end Dependency

namespace Reconcile

variable {s : Store} {k : Kind} {key claimPrefix : String} {now later : Timestamp}
  {p : Pass Outcome}

theorem writesOf_commit_ne_nil {r : Request} (write : r.isRead = false) :
    s.writesOf later (commit r) ≠ [] := by simp [writesOf_commit write]

theorem writesOf_ensureBackingPort_ne_nil {c : PortClaim} {ns uid : String}
    {next : String → Pass Outcome} (within : c.metadata.namespace_ = some ns)
    (identity : c.metadata.uid = some uid) :
    s.writesOf later (ensureBackingPort c next) ≠ [] := by
  simp [ensureBackingPort, within, identity, Store.writesOf, Request.isRead]

theorem Due.nil_iff_of_release {o : Object k} (due : Due now claimPrefix s o p)
    (deleted : o.isBeingDeleted = true) (marked : o.phase = some .deleting)
    (held : o.isProtected = true) :
    s.writesOf later p = [] ↔ s.HasDependent claimPrefix o := by
  cases due with
  | idle idle =>
    refine iff_of_true rfl ?_
    cases idle with
    | released _ _ free => simp [held] at free
    | needed _ _ dependent => exact dependent
    | settled _ live | overlapping live | backed live | incomplete live | classless live
    | unserved live | owned live | misplaced _ live => simp [deleted] at live
  | status write =>
    cases write with
    | mark _ _ first => exact absurd marked first
    | classPhase live | poolPending live | poolUnchecked live | poolChecked live | poolPassed live
    | claimPending live | claimBound live | portPending live | allocated live =>
      simp [deleted] at live
  | release _ _ _ clear => exact iff_of_false (writesOf_commit_ne_nil rfl) clear
  | bind live | restore live | reclaim live => simp [deleted] at live

theorem Due.nil_iff_of_reclaim {o : Port} {r : ClaimReference} (due : Due now claimPrefix s o p)
    (live : o.isBeingDeleted = false) (settled : o.phase = some .settled)
    (owner : o.spec.claimRef = some r) :
    s.writesOf later p = [] ↔ s.hasClaim r = true := by
  cases due with
  | idle idle =>
    refine iff_of_true rfl ?_
    cases idle with
    | owned _ _ owned => exact owned r owner
    | settled kinds => simp at kinds
    | released deleted | needed deleted => simp [live] at deleted
    | classless _ waiting | unserved _ waiting => simp [settled] at waiting
    | misplaced _ _ leaving => simp [settled] at leaving
  | status write => exact absurd (write.early live) (by simp [settled])
  | release deleted => simp [live] at deleted
  | @reclaim _ r' _ _ owner' orphan =>
    cases owner.symm.trans owner'
    exact iff_of_false (writesOf_commit_ne_nil rfl) (by simp [orphan])

theorem Due.nil_iff_of_heal {c : PortClaim} {ns uid name : String} (due : Due now claimPrefix s c p)
    (live : c.isBeingDeleted = false) (settled : c.phase = some .settled)
    (within : c.metadata.namespace_ = some ns) (identity : c.metadata.uid = some uid)
    (backing : c.backingPortName = some name) :
    s.writesOf later p = [] ↔ s.find .port name ≠ none := by
  cases due with
  | idle idle =>
    refine iff_of_true rfl ?_
    cases idle with
    | backed _ _ backing' stored =>
      cases backing.symm.trans backing'
      exact stored
    | incomplete _ _ missing => simp [within, identity] at missing
    | settled kinds => simp at kinds
    | released deleted | needed deleted => simp [live] at deleted
    | misplaced _ _ leaving => simp [settled] at leaving
  | status write => exact absurd (write.early live) (by simp [settled])
  | release deleted => simp [live] at deleted
  | bind _ waiting => simp [settled] at waiting
  | restore _ _ backing' absent within identity =>
    cases backing.symm.trans backing'
    exact iff_of_false (writesOf_ensureBackingPort_ne_nil within identity) (by simp [absent])

end Reconcile

namespace Store

/-- The write for the first object does not come because of the second. -/
inductive Detains (s : Store) (claimPrefix : String) :
    {k k' : Kind} → Object k → Object k' → Prop where
  | poolOfClass {c : PortClass} {d : PortPool} (deleted : c.isBeingDeleted = true)
      (listed : d ∈ Selection.poolsOfClass (c.metadata.name.getD "") s.pools.values) :
      Detains s claimPrefix c d
  | portOfClass {c : PortClass} {d : Port} (deleted : c.isBeingDeleted = true)
      (listed : d ∈ Selection.portsOfClass (c.metadata.name.getD "") s.ports.values) :
      Detains s claimPrefix c d
  | portOfPool {p : PortPool} {d : Port} (deleted : p.isBeingDeleted = true)
      (listed : d ∈ Selection.portsOfPool p.displayName s.ports.values) :
      Detains s claimPrefix p d
  | podOfClaim {c : PortClaim} {d : Pod} (deleted : c.isBeingDeleted = true)
      (listed : d ∈ s.pods.values)
      (within : d.metadata.namespace_ = some (c.metadata.namespace_.getD ""))
      (uses : PortClaim.isUsedBy c.displayName claimPrefix d = true) : Detains s claimPrefix c d
  | claimOfPort {p : Port} {d : PortClaim} {r : ClaimReference} (owner : p.spec.claimRef = some r)
      (found : s.find .portClaim (ObjectRef.key ⟨some r.namespace_, r.name⟩) = some d)
      (lives : d.metadata.uid = some r.uid) : Detains s claimPrefix p d
  | portOfClaim {c : PortClaim} {d : Port} {name : String} (live : c.isBeingDeleted = false)
      (settled : c.phase = some .settled) (backing : c.backingPortName = some name)
      (found : s.find .port name = some d) : Detains s claimPrefix c d

variable {s s' : Store} {k k' : Kind} {key claimPrefix : String}

theorem hasClaim_iff {r : ClaimReference} :
    s.hasClaim r = true ↔ ∃ c : PortClaim,
      s.find .portClaim (ObjectRef.key ⟨some r.namespace_, r.name⟩) = some c ∧
        c.metadata.uid = some r.uid := by
  simp [hasClaim, Option.any_eq_true]

theorem hasDependent_iff_detained {o : Object k} (controlled : k ≠ .pod)
    (deleted : o.isBeingDeleted = true) :
    s.HasDependent claimPrefix o ↔ ∃ (k' : Kind) (d : Object k'), s.Detains claimPrefix o d := by
  constructor
  · intro dependent
    cases k with
    | portClass =>
      rcases dependent with ⟨key, p, found, same⟩ | ⟨key, p, found, same⟩
      · have listed := (Store.mem_values (k := .portPool)).mpr ⟨key, found⟩
        exact ⟨.portPool, p, .poolOfClass deleted (List.mem_filter.mpr ⟨listed, by simpa⟩)⟩
      · have listed := (Store.mem_values (k := .port)).mpr ⟨key, found⟩
        exact ⟨.port, p, .portOfClass deleted (List.mem_filter.mpr ⟨listed, by simpa⟩)⟩
    | portPool =>
      obtain ⟨key, q, found, pool, number⟩ := dependent
      have listed := (Store.mem_values (k := .port)).mpr ⟨key, found⟩
      exact ⟨.port, q, .portOfPool deleted (List.mem_filter.mpr ⟨listed, by simp [pool, number]⟩)⟩
    | portClaim =>
      obtain ⟨key, pod, found, within, uses⟩ := dependent
      have listed := (Store.mem_values (k := .pod)).mpr ⟨key, found⟩
      exact ⟨.pod, pod, .podOfClaim deleted listed within uses⟩
    | port =>
      obtain ⟨r, owner, lives⟩ := dependent
      obtain ⟨c, found, same⟩ := hasClaim_iff.mp lives
      exact ⟨.portClaim, c, .claimOfPort owner found same⟩
    | pod => contradiction
  · rintro ⟨k', d, detains⟩
    cases detains with
    | @poolOfClass _ d _ listed =>
      obtain ⟨member, same⟩ := List.mem_filter.mp listed
      obtain ⟨key, found⟩ := (Store.mem_values (k := .portPool)).mp member
      exact Or.inl ⟨key, d, found, by simpa using same⟩
    | @portOfClass _ d _ listed =>
      obtain ⟨member, same⟩ := List.mem_filter.mp listed
      obtain ⟨key, found⟩ := (Store.mem_values (k := .port)).mp member
      exact Or.inr ⟨key, d, found, by simpa using same⟩
    | @portOfPool p d _ listed =>
      obtain ⟨member, holds⟩ := List.mem_filter.mp listed
      obtain ⟨key, found⟩ := (Store.mem_values (k := .port)).mp member
      obtain ⟨pool, number⟩ : d.poolName = some p.displayName ∧ d.number ≠ 0 := by
        simpa using holds
      exact ⟨key, d, found, pool, number⟩
    | @podOfClaim _ d _ listed within uses =>
      obtain ⟨key, found⟩ := (Store.mem_values (k := .pod)).mp listed
      exact ⟨key, d, found, within, uses⟩
    | @claimOfPort _ d _ owner found lives => exact ⟨_, owner, hasClaim_iff.mpr ⟨d, found, lives⟩⟩
    | portOfClaim live => simp [deleted] at live

structure Named (s : Store) : Prop where
  orderly : s.Orderly
  named : ∀ k key (o : Object k), s.find k key = some o →
    ∃ name, o.metadata.name = some name ∧ name ≠ ""

namespace Named

theorem empty : Named {} := by
  refine ⟨.empty, ?_⟩
  intro k key o found
  exact absurd found not_find_empty

theorem of_unchanged (h : s.Named) (same : s.Unchanged s') : s'.Named :=
  ⟨h.orderly.of_unchanged same, fun k key o found =>
    h.named k key o ((same.find k key).symm.trans found)⟩

theorem of_puts (h : s.Named) (orderly : s'.Orderly) {new : Option (Object k)}
    (puts : s.Puts s' k key new)
    (heir : ∀ o, new = some o → ∃ name, o.metadata.name = some name ∧ name ≠ "") : s'.Named :=
  ⟨orderly, puts.entries heir h.named⟩

theorem perform (h : s.Named) {a : UserAct} (ok : a.CreatesNamed) : (a.perform s).Named := by
  have orderly := h.orderly.perform a
  rcases a.perform_cases s with same | ⟨k, o, now, is, _, _, puts⟩ |
    ⟨k, ref, now, old, _, found, ⟨_, puts⟩ | ⟨_, _, puts⟩⟩
  · exact h.of_unchanged same
  · subst is
    apply h.of_puts orderly puts
    intro o' eq
    cases eq
    obtain ⟨named, nonempty, _⟩ := ok
    obtain ⟨name, is⟩ := Option.ne_none_iff_exists'.mp named
    exact ⟨name, is, fun empty => nonempty (by rw [is, empty])⟩
  · exact h.of_puts orderly puts (by simp)
  · apply h.of_puts orderly puts
    intro o eq
    cases eq
    rw [(old.marked_succeeds now _).name]
    exact h.named k _ old found

end Named

theorem named_upheld (claimPrefix : String) :
    (Discipline.solo Named (·.orderly)).Upholds claimPrefix where
  idle valid same := ⟨Named.of_unchanged valid same, trivial⟩
  deed {sec s s' k key new} valid orderly puts deed := by
    change s.Named at valid
    refine ⟨valid.of_puts orderly puts ?_, trivial⟩
    intro o eq
    subst eq
    rcases deed.succeeds with ⟨old, found, succeeds⟩ | ⟨kinds, free, _⟩
    · rw [succeeds.name]
      exact valid.named k key old found
    · subst kinds
      rcases deed.port with ⟨old, found, _⟩ | ⟨c, ns, uid, i, _, _, _, rfl, rfl⟩
      · rw [free] at found
        contradiction
      · refine ⟨portNameForClaim uid, rfl, ?_⟩
        simp [portNameForClaim, ← String.toList_inj]

theorem Named.displayName (h : s.Named) {o : Object k} (found : s.find k key = some o) :
    o.metadata.name = some o.displayName ∧ o.displayName ≠ "" := by
  obtain ⟨name, is, nonempty⟩ := h.named k key o found
  have display : o.displayName = name := by simp [Object.displayName, Metadata.displayName, is]
  rw [display]
  exact ⟨is, nonempty⟩

theorem Detains.concerned {o : Object k} {d : Object k'} (backed : s.Backed) (named : s.Named)
    (found : s.find k key = some o) (detains : s.Detains claimPrefix o d) :
    ⟨k, Reconcile.subject k o.ref⟩ ∈ Watch.concerned claimPrefix d := by
  obtain ⟨name, nonempty⟩ := named.displayName found
  have subject : Reconcile.subject k o.ref =
      ⟨if k.isNamespaced then some (o.metadata.namespace_.getD "") else none, o.displayName⟩ := by
    simp [Reconcile.subject, Object.ref, name]
  rw [subject]
  cases detains with
  | @poolOfClass c d _ listed =>
    have same : d.spec.classRef = c.displayName := by
      simpa [name] using (List.mem_filter.mp listed).2
    simp [Watch.concerned, Dependency.poolToClass, same, Dependency.named_of_ne nonempty,
      Kind.isNamespaced]
  | @portOfClass c d _ listed =>
    have same : d.spec.classRef = c.displayName := by
      simpa [name] using (List.mem_filter.mp listed).2
    simp [Watch.concerned, Dependency.portToClass, same, Dependency.named_of_ne nonempty,
      Kind.isNamespaced]
  | @portOfPool p d _ listed =>
    obtain ⟨pool, _⟩ : d.poolName = some p.displayName ∧ d.number ≠ 0 := by
      simpa using (List.mem_filter.mp listed).2
    simp [Watch.concerned, Dependency.portToPool, pool, Dependency.named_of_ne nonempty,
      Kind.isNamespaced]
  | @podOfClaim c d _ listed within uses =>
    have listed' := Dependency.mem_podToClaims nonempty within uses
    simpa [Watch.concerned, Kind.isNamespaced] using listed'
  | @claimOfPort p d r owner claim lives =>
    have owned := (backed.fits .port key p found).1 r owner
    have recorded := (backed.fits .portClaim _ d claim).1.recorded
    have display : p.displayName = portNameForClaim r.uid := by
      rw [← owned.under]
      exact Option.some.inj (name.symm.trans owned.named)
    simp [Watch.concerned, Dependency.claimToPort, PortClaim.backingPortName_of_uid recorded lives,
      display, Kind.isNamespaced]
  | @portOfClaim c d portName live settled backing stored =>
    obtain ⟨n, _, identity⟩ := backed.orderly.identified .portClaim key c found
    have recorded := (backed.fits .portClaim key c found).1.recorded
    obtain rfl : portNameForClaim (uidOf n) = portName :=
      Option.some.inj ((PortClaim.backingPortName_of_uid recorded identity).symm.trans backing)
    obtain ⟨p, r, identity', within, claimName, _, stored', refers, _⟩ :=
      backed.backs found identity settled stored
    rw [Option.some.inj (identity.symm.trans identity')] at stored
    cases stored.symm.trans stored'
    have same : r.name = c.displayName := Option.some.inj (claimName.symm.trans name)
    simp [Watch.concerned, Dependency.portToClaim, refers, same, nonempty, within,
      Kind.isNamespaced]

theorem detained_iff_hasClaim {p : Port} {r : ClaimReference} (owner : p.spec.claimRef = some r) :
    (∃ (k' : Kind) (d : Object k'), s.Detains claimPrefix p d) ↔ s.hasClaim r = true := by
  rw [hasClaim_iff]
  constructor
  · rintro ⟨k', d, detains⟩
    cases detains with
    | @claimOfPort _ d r' owner' found lives =>
      cases owner.symm.trans owner'
      exact ⟨d, found, lives⟩
  · rintro ⟨c, found, lives⟩
    exact ⟨.portClaim, c, .claimOfPort owner found lives⟩

theorem detained_iff_stored {c : PortClaim} {name : String} (live : c.isBeingDeleted = false)
    (settled : c.phase = some .settled) (backing : c.backingPortName = some name) :
    (∃ (k' : Kind) (d : Object k'), s.Detains claimPrefix c d) ↔ s.find .port name ≠ none := by
  rw [Option.ne_none_iff_exists']
  constructor
  · rintro ⟨k', d, detains⟩
    cases detains with
    | podOfClaim deleted => simp [live] at deleted
    | @portOfClaim _ d name' _ _ backing' found =>
      cases backing.symm.trans backing'
      exact ⟨d, found⟩
  · rintro ⟨d, found⟩
    exact ⟨.port, d, .portOfClaim live settled backing found⟩

/-- For an object that pends on others alone, a pass asks for no write just if one detains it. -/
theorem writesOf_nil_iff_detained {now later : Timestamp} {ref : ObjectRef} {o : Object k}
    (backed : s.Backed) (found : s.find k (Reconcile.subject k ref).key = some o)
    (pends : o.Pends) :
    s.writesOf later (Reconcile.pass now claimPrefix k ref) = [] ↔
      ∃ (k' : Kind) (d : Object k'), s.Detains claimPrefix o d := by
  have controlled : k ≠ .pod := by
    rintro rfl
    cases pends with
    | release _ _ held => simp [Object.isProtected, Kind.token?] at held
  obtain ⟨p, due, reads⟩ := Reconcile.reaches_due now later claimPrefix controlled found
  rw [reads.writesOf_eq]
  cases pends with
  | release deleted marked held =>
    rw [due.nil_iff_of_release deleted marked held, hasDependent_iff_detained controlled deleted]
  | reclaim live settled owner =>
    rw [due.nil_iff_of_reclaim live settled owner, detained_iff_hasClaim owner]
  | @heal c live settled =>
    obtain ⟨proper, hasNamespace, _⟩ := backed.fits .portClaim _ c found
    obtain ⟨ns, within⟩ := Option.ne_none_iff_exists'.mp hasNamespace
    obtain ⟨n, _, identity⟩ := backed.orderly.identified .portClaim _ c found
    have backing := PortClaim.backingPortName_of_uid proper.recorded identity
    rw [due.nil_iff_of_heal live settled within identity backing,
      detained_iff_stored live settled backing]

theorem backed_and_named {claimPrefix : String}
    (reachable : SeriallyReachable (UserStep UserAct.CreatesNamed) claimPrefix s) :
    s.Backed ∧ s.Named := by
  constructor
  · exact Discipline.inv_of_userSteps (Course.backings_upheld (fun _ _ => False) claimPrefix)
      .empty (fun valid ok => (Backed.perform valid ok.unbacked).1) reachable
  · exact Discipline.inv_of_userSteps (named_upheld claimPrefix) .empty
      (fun valid ok => Named.perform valid ok) reachable

end Store

/-- In the stores that runs come to, what pends on others is left alone just if something detains
it, and whatever detains an object concerns it when it changes. -/
theorem dependencies_watched {claimPrefix key : String} {s : Store} {k : Kind} {o : Object k}
    (reachable : SeriallyReachable (UserStep UserAct.CreatesNamed) claimPrefix s)
    (found : s.find k key = some o) :
    (o.Pends → ∀ (now later : Timestamp) (ref : ObjectRef), (Reconcile.subject k ref).key = key →
      (s.writesOf later (Reconcile.pass now claimPrefix k ref) = [] ↔
        ∃ (k' : Kind) (d : Object k'), s.Detains claimPrefix o d)) ∧
      ∀ (k' : Kind) (d : Object k'), s.Detains claimPrefix o d →
        ⟨k, Reconcile.subject k o.ref⟩ ∈ Watch.concerned claimPrefix d := by
  obtain ⟨backed, named⟩ := Store.backed_and_named reachable
  constructor
  · rintro pends now later ref rfl
    exact Store.writesOf_nil_iff_detained backed found pends
  · intro k' d detains
    exact detains.concerned backed named found

open Cluster (noon)

def detained : List SerialMove :=
  [.act (.insert .portClass
      ⟨{ name := some "c", finalizers := some [ProtectionToken.ofClass.text] }, ⟨⟩, none⟩ noon),
    .act (.insert .portPool ⟨{ name := some "m" }, ⟨"c", 5000, 5000, true⟩, none⟩ noon),
    .act (.insert .portClaim
      ⟨{ name := some "web", namespace_ := some "t",
         finalizers := some [ProtectionToken.ofClaim.text] }, ⟨"c"⟩, none⟩ noon),
    .act (.insert .pod
      ⟨{ name := some "a", namespace_ := some "t",
         annotations := some (.ofList [("claims/http", "web")]) }, none, none⟩ noon),
    .act (.delete .portClass ⟨none, "c"⟩ noon), .pass noon .portClass ⟨none, "c"⟩,
    .act (.delete .portClaim ⟨some "t", "web"⟩ noon), .pass noon .portClaim ⟨some "t", "web"⟩]

theorem dependencies_watched_detained :
    let s := detained.foldl (SerialMove.play "claims") {}
    ∃ (c : PortClass) (m : PortPool) (web : PortClaim) (a : Pod),
      s.find .portClass "c" = some c ∧ s.find .portClaim "t/web" = some web ∧
      s.writesOf noon (Reconcile.pass noon "claims" .portClass ⟨none, "c"⟩) = [] ∧
      s.writesOf noon (Reconcile.pass noon "claims" .portClaim ⟨some "t", "web"⟩) = [] ∧
      ⟨.portClass, ⟨none, "c"⟩⟩ ∈ Watch.concerned "claims" m ∧
      ⟨.portClaim, ⟨some "t", "web"⟩⟩ ∈ Watch.concerned "claims" a := by
  intro s
  have reachable : SeriallyReachable (UserStep UserAct.CreatesNamed) "claims" s :=
    SerialMove.reachable detained .refl (fun _ a ok => .user a ok) (by decide +kernel)
  have class_ : (s.find .portClass "c").any (fun c => decide (c.isBeingDeleted = true ∧
      c.phase = some .deleting ∧ c.isProtected = true ∧ c.ref = ⟨none, "c"⟩ ∧
      c.metadata.name = some "c")) = true := by decide +kernel
  have pool : (s.find .portPool "m").any (fun m => decide (m.spec.classRef = "c")) = true := by
    decide +kernel
  have claim : (s.find .portClaim "t/web").any (fun c => decide (c.isBeingDeleted = true ∧
      c.phase = some .deleting ∧ c.isProtected = true ∧ c.ref = ⟨some "t", "web"⟩ ∧
      c.metadata.namespace_ = some "t" ∧ c.displayName = "web")) = true := by decide +kernel
  have pod : (s.find .pod "t/a").any (fun a => decide (a.metadata.namespace_ = some "t" ∧
      PortClaim.isUsedBy "web" "claims" a = true)) = true := by decide +kernel
  clear_value s
  obtain ⟨c, foundC, is⟩ := (Option.any_eq_true ..).mp class_
  obtain ⟨deletedC, markedC, heldC, refC, nameC⟩ := of_decide_eq_true is
  obtain ⟨m, foundM, is⟩ := (Option.any_eq_true ..).mp pool
  have ofClass := of_decide_eq_true is
  obtain ⟨web, foundW, is⟩ := (Option.any_eq_true ..).mp claim
  obtain ⟨deletedW, markedW, heldW, refW, within, nameW⟩ := of_decide_eq_true is
  obtain ⟨a, foundA, is⟩ := (Option.any_eq_true ..).mp pod
  obtain ⟨withinA, uses⟩ := of_decide_eq_true is
  obtain ⟨waitsC, watchedC⟩ := dependencies_watched reachable foundC
  obtain ⟨waitsW, watchedW⟩ := dependencies_watched reachable foundW
  have poolDetains : s.Detains "claims" c m := by
    apply Store.Detains.poolOfClass deletedC
    rw [nameC]
    exact List.mem_filter.mpr ⟨(Store.mem_values (k := .portPool)).mpr ⟨"m", foundM⟩, by simpa⟩
  have podDetains : s.Detains "claims" web a := by
    apply Store.Detains.podOfClaim deletedW
    · exact (Store.mem_values (k := .pod)).mpr ⟨"t/a", foundA⟩
    · rw [within]
      exact withinA
    · rwa [nameW]
  refine ⟨c, m, web, a, foundC, foundW, ?_, ?_, ?_, ?_⟩
  · exact (waitsC (.release deletedC markedC heldC) noon noon _ rfl).mpr ⟨_, m, poolDetains⟩
  · exact (waitsW (.release deletedW markedW heldW) noon noon _ rfl).mpr ⟨_, a, podDetains⟩
  · have concerned := watchedC _ m poolDetains
    rwa [refC] at concerned
  · have concerned := watchedW _ a podDetains
    rwa [refW] at concerned

end HostPorts
