import HostPorts.Proofs.Pass.Discipline

/-!
Everything that a pass does to a store. `Deed` lists the entries that passes write, each with what
the pass has seen before; a discipline that upholds its invariant over these deeds makes every pass
safe. Theorems about passes are case analyses over deeds and do not open the passes again.
-/
namespace HostPorts

def Store.hasClaim (s : Store) (r : ClaimReference) : Bool :=
  (s.find .portClaim (ObjectRef.key ⟨some r.namespace_, r.name⟩)).any
    fun c => c.metadata.uid = some r.uid

theorem PortPool.checked_only (now : Timestamp) (p : PortPool) (pools : List PortPool) :
    p.checked now pools = { p with status := (p.checked now pools).status } := by
  unfold PortPool.checked
  split <;> rfl

namespace Discipline

def Unclaimed (D : Discipline) (r : ClaimReference) (s : Store) : Prop :=
  s.hasClaim r = false ∨
    ∃ e, D.fault (.get .portClaim ⟨some r.namespace_, r.name⟩) e ∧ e.isNotFound = true

/-- The pass has found, after it read the object, that nothing depends on it any more. -/
def Clear (D : Discipline) (claimPrefix : String) : {k : Kind} → Object k → Store → Prop
  | .portClass, c => D.Once fun s₂ =>
    D.Once (fun s₁ => D.Seen c s₁ ∧
      Selection.poolsOfClass (c.metadata.name.getD "") s₁.pools.values = []) s₂ ∧
    Selection.portsOfClass (c.metadata.name.getD "") s₂.ports.values = []
  | .portPool, p => D.Once fun s₁ =>
    D.Seen p s₁ ∧ Selection.portsOfPool p.displayName s₁.ports.values = []
  | .portClaim, c => D.Once fun s₁ => D.Seen c s₁ ∧
    ∀ pod ∈ s₁.pods.values, pod.metadata.namespace_ = some (c.metadata.namespace_.getD "") →
      PortClaim.isUsedBy c.displayName claimPrefix pod = false
  | .port, p => fun s => ∀ r, p.spec.claimRef = some r →
    D.Once (fun s₁ => D.Seen p s₁ ∧ D.Unclaimed r s₁) s
  | .pod, _ => fun _ => False

/-- The choice that a pass inside has made for the port, from one listing of the pools and a later
one of the ports. -/
inductive Chosen (D : Discipline) (p : Port) (a : Allocation) : Section → Store → Prop where
  | intro {s s₁ s₂ : Store} (valid₁ : D.inv s₁) (valid₂ : D.inv s₂)
      (drift₁ : D.rely (.offered s₁.pools.values) s₁ s₂)
      (drift₂ : D.rely (.offered s₁.pools.values) s₂ s)
      (choice : p.allocation s₁.pools.values s₂.ports.values = .ok a) :
      Chosen D p a (.offered s₁.pools.values) s

/-- The status that a pass writes for a pool that is not under deletion. The verdict on overlap goes
by one listing of the pools, and it is the pool as it was then that it is written for. -/
inductive PoolWrite (D : Discipline) (p : PortPool) (s : Store) : Option PoolStatus → Prop where
  | pending (new : p.phase = none) : PoolWrite D p s (p.withPhase .pending).status
  | unchecked {now : Timestamp} {reason message : String} (waiting : p.phase = some .pending)
      (first : p.overlapStatus = none) :
      PoolWrite D p s (p.withOverlap now .unknown reason message).status
  | checked {now : Timestamp} {pools : List PortPool} (waiting : p.phase = some .pending)
      (due : p.overlapStatus = some .unknown)
      (listed : D.Once (fun s₁ => D.Seen p s₁ ∧ s₁.pools.values = pools) s) :
      PoolWrite D p s (p.checked now pools).status
  | passed (waiting : p.phase = some .pending) (clear : p.overlapStatus = some .true_) :
      PoolWrite D p s (p.withPhase .settled).status

/-- The entry that a request of a pass puts under a key. Status writes and releases meet the very
object that the pass has read. -/
inductive Deed (D : Discipline) (claimPrefix : String) (s : Store) :
    Section → (k : Kind) → String → Option (Object k) → Prop where
  | classPhase {c : PortClass} {phase : Phase} (here : s.find .portClass c.key = some c)
      (live : c.isBeingDeleted = false)
      (next : c.phase = none ∧ phase = .pending ∨ c.phase = some .pending ∧ phase = .settled) :
      Deed D claimPrefix s .outside .portClass c.key
        (some ((c.withPhase phase).withVersion s.nextVersion))
  | poolStatus {p : PortPool} {status : Option PoolStatus} (here : s.find .portPool p.key = some p)
      (live : p.isBeingDeleted = false) (write : D.PoolWrite p s status) :
      Deed D claimPrefix s .outside .portPool p.key
        (some (Object.withVersion (k := .portPool) { p with status := status } s.nextVersion))
  | claimPending {c : PortClaim} (here : s.find .portClaim c.key = some c)
      (live : c.isBeingDeleted = false) (new : c.phase = none) :
      Deed D claimPrefix s .outside .portClaim c.key
        (some (Object.withVersion (k := .portClaim)
          { c with status := some ⟨some .pending, none⟩ } s.nextVersion))
  | claimBound {c : PortClaim} {uid : String} (here : s.find .portClaim c.key = some c)
      (live : c.isBeingDeleted = false) (waiting : c.phase = some .pending)
      (identity : c.metadata.uid = some uid) :
      Deed D claimPrefix s .outside .portClaim c.key
        (some (Object.withVersion (k := .portClaim)
          { c with status := some ⟨some .settled, some (portNameForClaim uid)⟩ } s.nextVersion))
  | backing {c : PortClaim} {ns uid : String} {now : Timestamp} (seen : D.Seen c s)
      (live : c.isBeingDeleted = false) (within : c.metadata.namespace_ = some ns)
      (identity : c.metadata.uid = some uid) (free : s.find .port (portNameForClaim uid) = none) :
      Deed D claimPrefix s .outside .port (portNameForClaim uid)
        (some ((c.backingPort ns uid).identified (s.nextIdentity now)))
  | portPending {p : Port} (here : s.find .port p.key = some p) (live : p.isBeingDeleted = false)
      (new : p.phase = none) :
      Deed D claimPrefix s .outside .port p.key
        (some (Object.withVersion (k := .port)
          { p with status := some ⟨some .pending, 0, none⟩ } s.nextVersion))
  | allocate {sec : Section} {p : Port} {a : Allocation} (here : s.find .port p.key = some p)
      (live : p.isBeingDeleted = false) (waiting : p.phase = some .pending)
      (chosen : D.Chosen p a sec s) :
      Deed D claimPrefix s sec .port p.key
        (some ((p.allocated a).withVersion s.nextVersion))
  | reclaim {p old : Port} {r : ClaimReference} {new : Option Port} (seen : D.Seen p s)
      (settled : p.phase = some .settled) (owner : p.spec.claimRef = some r)
      (orphan : D.Once (fun s₁ => D.Seen p s₁ ∧ D.Unclaimed r s₁) s)
      (found : s.find .port p.displayName = some old)
      (same : old.metadata.resourceVersion = p.metadata.resourceVersion)
      (gone : (old.metadata.finalizerList = [] ∧ new = none) ∨
        (old.metadata.finalizerList ≠ [] ∧ ∃ now, new = some (old.marked now s.nextVersion))) :
      Deed D claimPrefix s .outside .port p.displayName new
  | mark {k : Kind} {o : Object k} (controlled : k ≠ .pod) (here : s.find k o.key = some o)
      (deleted : o.isBeingDeleted = true) (first : o.phase ≠ some .deleting) :
      Deed D claimPrefix s .outside k o.key
        ((o.withPhase .deleting).withVersion s.nextVersion).kept
  | release {k : Kind} {o : Object k} (here : s.find k o.key = some o)
      (deleted : o.isBeingDeleted = true) (marked : o.phase = some .deleting)
      (held : o.isProtected = true) (clear : D.Clear claimPrefix o s) :
      Deed D claimPrefix s .outside k o.key (o.released.withVersion s.nextVersion).kept

section

variable {D : Discipline} {claimPrefix : String} {sec : Section} {s s' : Store} {k : Kind}
  {key : String}

theorem Deed.succeeds {o : Object k} (deed : D.Deed claimPrefix s sec k key (some o)) :
    (∃ old, s.find k key = some old ∧ o.Succeeds old) ∨
      k = .port ∧ s.find k key = none ∧ o.metadata.name = some key ∧
        o.metadata.namespace_ = none ∧ o.metadata.uid = some (Store.uidOf (s.created + 1)) := by
  generalize is : some o = new at deed
  cases deed with
  | classPhase here =>
    cases is
    exact Or.inl ⟨_, here, Object.withPhase_succeeds ..⟩
  | poolStatus here =>
    cases is
    exact Or.inl ⟨_, here, Object.withStatus_succeeds ..⟩
  | claimPending here =>
    cases is
    exact Or.inl ⟨_, here, Object.withStatus_succeeds ..⟩
  | claimBound here =>
    cases is
    exact Or.inl ⟨_, here, Object.withStatus_succeeds ..⟩
  | backing _ _ _ _ free =>
    cases is
    exact Or.inr ⟨rfl, free, rfl, rfl, rfl⟩
  | portPending here =>
    cases is
    exact Or.inl ⟨_, here, Object.withStatus_succeeds ..⟩
  | allocate here =>
    cases is
    exact Or.inl ⟨_, here, Object.withStatus_succeeds ..⟩
  | reclaim _ _ _ _ found _ gone =>
    rcases gone with ⟨_, none⟩ | ⟨_, now, some⟩
    · rw [none] at is
      contradiction
    · rw [some] at is
      cases is
      exact Or.inl ⟨_, found, Object.marked_succeeds ..⟩
  | mark _ here =>
    rw [Object.eq_of_kept is.symm]
    exact Or.inl ⟨_, here, Object.withPhase_succeeds ..⟩
  | release here =>
    rw [Object.eq_of_kept is.symm]
    exact Or.inl ⟨_, here, Object.released_succeeds ..⟩

theorem Deed.number {p : Port} (deed : D.Deed claimPrefix s sec .port key (some p)) :
    p.number = 0 ∨
      (∃ old : Port, s.find .port key = some old ∧ p.spec = old.spec ∧ p.number = old.number ∧
        p.poolName = old.poolName) ∨
      ∃ (old : Port) (a : Allocation), s.find .port key = some old ∧ p.spec = old.spec ∧
        p.number = a.port ∧ p.poolName = some a.pool ∧ D.Chosen old a sec s := by
  generalize is : some p = new at deed
  cases deed with
  | backing =>
    cases is
    exact Or.inl rfl
  | portPending =>
    cases is
    exact Or.inl rfl
  | allocate here _ _ chosen =>
    cases is
    exact Or.inr (Or.inr ⟨_, _, here, rfl, rfl, rfl, chosen⟩)
  | reclaim _ _ _ _ found _ gone =>
    rcases gone with ⟨_, none⟩ | ⟨_, now, some⟩
    · rw [none] at is
      contradiction
    · rw [some] at is
      cases is
      exact Or.inr (Or.inl ⟨_, found, rfl, rfl, rfl⟩)
  | @mark _ o _ here =>
    rw [Object.eq_of_kept is.symm]
    exact Or.inr (Or.inl ⟨o, here, rfl, Port.number_withPhase o _, Port.poolName_withPhase o _⟩)
  | @release _ o here =>
    rw [Object.eq_of_kept is.symm]
    refine Or.inr (Or.inl ⟨o, here, (Object.released_succeeds o _).spec, ?_⟩)
    have status : (o.released.withVersion s.nextVersion).status = o.status := o.released_status
    rw [Port.number, Port.poolName, status]
    exact ⟨rfl, rfl⟩

theorem Deed.pool {new : Option PortPool} (deed : D.Deed claimPrefix s sec .portPool key new) :
    ∃ old, s.find .portPool key = some old ∧
      ((old.isBeingDeleted = false ∧ ∃ p : PortPool, new = some p ∧ p.isBeingDeleted = false ∧
          p.spec = old.spec ∧ p.metadata.finalizerList = old.metadata.finalizerList) ∨
        (old.isBeingDeleted = true ∧ ∃ p : PortPool, new = p.kept ∧ p.isBeingDeleted = true ∧
          p.spec = old.spec ∧ (p.metadata.finalizerList = old.metadata.finalizerList ∨
            key = old.key ∧ D.Clear claimPrefix old s))) := by
  cases deed with
  | @poolStatus p status here live =>
    exact ⟨p, here, Or.inl ⟨live, _, rfl, live, rfl, rfl⟩⟩
  | @mark _ p _ here deleted =>
    exact ⟨p, here, Or.inr ⟨deleted, _, rfl, deleted, rfl, Or.inl rfl⟩⟩
  | @release _ p here deleted _ _ clear =>
    refine ⟨p, here, Or.inr ⟨deleted, _, rfl, ?_, (p.released_succeeds _).spec,
      Or.inr ⟨rfl, clear⟩⟩⟩
    rw [p.released_only]
    exact deleted

theorem Deed.clusterWide {k' : Kind} {new : Option (Object k)}
    (deed : D.Deed claimPrefix s sec k key new) (puts : s.Puts s' k key new)
    (h : s.ClusterWide k') : s'.ClusterWide k' := by
  apply h.of_puts puts
  intro kinds o eq
  subst kinds
  rw [eq] at deed
  rcases deed.succeeds with ⟨old, found, same⟩ | ⟨_, _, named, free, _⟩
  · rw [same.name, same.namespace_]
    exact h key old found
  · exact ⟨named, free⟩

end

/-- The deeds of passes keep the invariant and the promise. -/
structure Upholds (D : Discipline) (claimPrefix : String) : Prop where
  idle : ∀ {sec s s'}, D.inv s → s.Unchanged s' → D.Keeps sec s s'
  deed : ∀ {sec s s' k key new}, D.inv s → s'.Orderly → s.Puts s' k key new →
    D.Deed claimPrefix s sec k key new → D.Keeps sec s s'

section

variable {D : Discipline} {claimPrefix : String} {sec : Section} {s s' : Store} {k : Kind}

theorem safe_writeStatus (U : D.Upholds claimPrefix) {o new : Object k}
    (only : new = { o with status := new.status }) (known : s.Known o)
    (deed : ∀ s', D.inv s' → D.rely sec s s' → s'.find k o.key = some o →
      D.Deed claimPrefix s' sec k o.key (new.withVersion s'.nextVersion).kept) :
    D.Safe (Reconcile.writeStatus new) sec s := by
  apply safe_commit
  intro s' valid' drift now
  have known' := known.mono (D.rely_evolves drift)
  have orderly := (D.inv_orderly valid').answer now (.updateStatus k new)
  rcases Store.updateStatus_cases new s' with same | ⟨old, found, version, _, puts⟩
  · exact U.idle valid' same
  · have key : new.key = o.key := by rw [only, Object.key, Object.key, Object.ref, Object.ref]
    have sameVersion : new.metadata.resourceVersion = o.metadata.resourceVersion := by rw [only]
    rw [key] at found puts
    have met := known'.same old found (version.trans sameVersion)
    subst met
    have written : old.withStatusOf new s'.nextVersion = new.withVersion s'.nextVersion := by
      rw [only, Object.withStatusOf]
    rw [written] at puts
    exact U.deed valid' orderly puts (deed s' valid' drift found)

theorem safe_release (U : D.Upholds claimPrefix) {o : Object k}
    (deleted : o.isBeingDeleted = true) (marked : o.phase = some .deleting)
    (held : o.isProtected = true) (known : s.Known o)
    (clear : ∀ s', D.inv s' → D.rely .outside s s' → D.Clear claimPrefix o s') :
    D.Safe (Reconcile.release o) .outside s := by
  apply safe_commit
  intro s' valid' drift now
  have known' := known.mono (D.rely_evolves drift)
  have orderly := (D.inv_orderly valid').answer now (.updateFinalizers k o.released)
  rcases Store.updateFinalizers_cases o.released s' with same | ⟨old, found, version, _, puts⟩
  · exact U.idle valid' same
  · have key : o.released.key = o.key := by
      rw [o.released_only, Object.key, Object.key, Object.ref, Object.ref]
    have sameVersion : o.released.metadata.resourceVersion = o.metadata.resourceVersion := by
      rw [o.released_only]
    rw [key] at found puts
    rw [sameVersion] at version
    have met := known'.same old found version
    subst met
    have written : old.withFinalizersOf old.released s'.nextVersion =
        old.released.withVersion s'.nextVersion := by
      rw [old.released_only, Object.withFinalizersOf]
    rw [written] at puts
    exact U.deed valid' orderly puts (.release found deleted marked held (clear s' valid' drift))

theorem safe_mark (U : D.Upholds claimPrefix) {o : Object k} (controlled : k ≠ .pod)
    (deleted : o.isBeingDeleted = true) (first : o.phase ≠ some .deleting) (known : s.Known o) :
    D.Safe (Reconcile.writeStatus (o.withPhase .deleting)) .outside s :=
  safe_writeStatus U (o.withPhase_only .deleting) known fun _ _ _ found =>
    .mark controlled found deleted first

theorem safe_finalize (U : D.Upholds claimPrefix) {o : Object k} {check : Pass Outcome}
    (controlled : k ≠ .pod) (deleted : o.isBeingDeleted = true) (known : s.Known o)
    (checks : o.phase = some .deleting → o.isProtected = true → D.Safe check .outside s) :
    D.Safe
      (match DeletionStep.plan (o.phase = some .deleting) o.isProtected with
        | .markDeleting => Reconcile.writeStatus (o.withPhase .deleting)
        | .converged => Reconcile.finish
        | .checkDependents => check) .outside s := by
  by_cases deleting : o.phase = some .deleting
  · cases held : o.isProtected with
    | true => simpa [DeletionStep.plan, deleting] using checks deleting held
    | false => simpa [DeletionStep.plan, deleting] using safe_finish
  · simpa [DeletionStep.plan, deleting] using safe_mark U controlled deleted deleting known

theorem safe_portClass (U : D.Upholds claimPrefix) (name : String) :
    D.Safe (Reconcile.portClass name) .outside s := by
  apply safe_find
  intro s₀ valid₀ _ found told
  cases found with
  | none => exact safe_finish
  | some c =>
    have seen := Seen.of_find valid₀ told.stored
    cases deleted : c.isBeingDeleted with
    | true =>
      simp only [deleted, if_true]
      apply safe_finalize U (by decide) deleted seen.known
      intro deleting held
      apply safe_ask_list
      intro s₁ valid₁ drift₁
      apply safe_ask_list
      intro s₂ valid₂ drift₂
      simp only [Section.outside_after] at drift₂ ⊢
      split
      next empty =>
        rw [Bool.and_eq_true, List.isEmpty_iff, List.isEmpty_iff] at empty
        have seen₁ := seen.later valid₀ drift₁
        apply safe_release U deleted deleting held (seen₁.later valid₁ drift₂).known
        intro s' valid' drift'
        exact ⟨s₂, valid₂, ⟨⟨s₁, valid₁, ⟨seen₁, empty.1⟩, drift₂⟩, empty.2⟩, drift'⟩
      next => exact safe_finish
    | false =>
      simp only [deleted, Bool.false_eq_true, if_false]
      have writes : ∀ phase,
          c.phase = none ∧ phase = .pending ∨ c.phase = some .pending ∧ phase = .settled →
          D.Safe (Reconcile.writeStatus (c.withPhase phase)) .outside s₀ := by
        intro phase next
        apply safe_writeStatus U (c.withPhase_only phase) seen.known
        intro s' _ _ here
        rw [Object.kept_of_not_deleted (by exact deleted)]
        exact .classPhase here deleted next
      split
      next new => exact writes .pending (Or.inl ⟨new, rfl⟩)
      next waiting => exact writes .settled (Or.inr ⟨waiting, rfl⟩)
      next => exact safe_finish

theorem safe_portPool (U : D.Upholds claimPrefix) (now : Timestamp) (name : String) :
    D.Safe (Reconcile.portPool now name) .outside s := by
  apply safe_find
  intro s₀ valid₀ _ found told
  cases found with
  | none => exact safe_finish
  | some p =>
    have seen := Seen.of_find valid₀ told.stored
    cases deleted : p.isBeingDeleted with
    | true =>
      simp only [deleted, if_true]
      apply safe_finalize U (by decide) deleted seen.known
      intro deleting held
      apply safe_ask_list
      intro s₁ valid₁ drift₁
      simp only [Section.outside_after]
      split
      next empty =>
        have seen₁ := seen.later valid₀ drift₁
        apply safe_release U deleted deleting held seen₁.known
        intro s' valid' drift'
        exact ⟨s₁, valid₁, ⟨seen₁, List.isEmpty_iff.mp empty⟩, drift'⟩
      next => exact safe_finish
    | false =>
      simp only [deleted, Bool.false_eq_true, if_false]
      have writes : ∀ t new, t.Known p → new = { p with status := new.status } →
          (∀ s', D.inv s' → D.rely .outside t s' → D.PoolWrite p s' new.status) →
          D.Safe (Reconcile.writeStatus (k := .portPool) new) .outside t := by
        intro t new known only write
        apply safe_writeStatus U only known
        intro s' valid' drift' here
        rw [only, Object.kept_of_not_deleted (by exact deleted)]
        exact .poolStatus here deleted (write s' valid' drift')
      split
      next new =>
        exact writes s₀ _ seen.known (p.withPhase_only .pending) fun _ _ _ => .pending new
      next waiting =>
        unfold Reconcile.checkOverlap
        split
        next first => exact writes s₀ _ seen.known rfl fun _ _ _ => .unchecked waiting first
        next => exact safe_finish
        next due =>
          apply safe_ask_list
          intro s₁ valid₁ drift₁
          have seen₁ := seen.later valid₀ drift₁
          simp only [Section.outside_after]
          apply writes s₁ _ seen₁.known (PortPool.checked_only now p _)
          intro s' _ drift'
          exact .checked waiting due ⟨s₁, valid₁, ⟨seen₁, rfl⟩, drift'⟩
        next clear =>
          exact writes s₀ _ seen.known (p.withPhase_only .settled) fun _ _ _ =>
            .passed waiting clear
      next => exact safe_finish

theorem safe_ensureBackingPort (U : D.Upholds claimPrefix) {c : PortClaim}
    {next : String → Pass Outcome} (live : c.isBeingDeleted = false) (seen : D.Seen c s)
    (valid : D.inv s)
    (rest : ∀ s' uid, s'.Known c → c.metadata.uid = some uid →
      D.Safe (next (portNameForClaim uid)) .outside s') :
    D.Safe (Reconcile.ensureBackingPort c next) .outside s := by
  unfold Reconcile.ensureBackingPort
  split
  · trivial
  · trivial
  next ns uid within identity =>
    intro s' valid' drift
    have seen' := seen.later valid drift
    have fails : ∀ s', s'.Known c → ∀ e : StoreError, D.Safe
        (if e.isAlreadyExists then next (portNameForClaim uid) else .done (.error (.store e)))
        .outside s' := by
      intro s' known e
      split
      · exact rest s' uid known identity
      · trivial
    refine ⟨?_, fun e _ => fails s' seen'.known e⟩
    intro now
    have orderly := (D.inv_orderly valid').answer now (.createPort (c.backingPort ns uid))
    have evolves := Store.evolves_answer now (.createPort (c.backingPort ns uid)) s'
    have known := seen'.known.mono evolves
    constructor
    · rcases Store.createPort_cases now (c.backingPort ns uid) s' with same | ⟨free, _, puts⟩
      · exact U.idle valid' same
      · exact U.deed valid' orderly puts (.backing seen' live within identity free)
    · generalize (Store.answer now (.createPort (c.backingPort ns uid)) s').1 = reply
      cases reply with
      | ok port => exact rest _ uid known identity
      | error e => exact fails _ known e

theorem safe_portClaim (U : D.Upholds claimPrefix) (ns name : String) :
    D.Safe (Reconcile.portClaim claimPrefix ns name) .outside s := by
  apply safe_find
  intro s₀ valid₀ _ found told
  cases found with
  | none => exact safe_finish
  | some c =>
    have seen := Seen.of_find valid₀ told.stored
    cases deleted : c.isBeingDeleted with
    | true =>
      simp only [deleted, if_true]
      apply safe_finalize U (by decide) deleted seen.known
      intro deleting held
      apply safe_ask_listPods
      intro s₁ valid₁ drift₁
      split
      · exact safe_finish
      next unused =>
        have seen₁ := seen.later valid₀ drift₁
        apply safe_release U deleted deleting held seen₁.known
        intro s' valid' drift'
        refine ⟨s₁, valid₁, ⟨seen₁, ?_⟩, drift'⟩
        intro pod stored within
        rw [Bool.not_eq_true, List.any_eq_false] at unused
        have notUsed := unused pod (List.mem_filter.mpr ⟨stored, by simpa using within⟩)
        simpa using notUsed
    | false =>
      simp only [deleted, Bool.false_eq_true, if_false]
      have kept : ∀ (status : ClaimStatus) version, (Object.withVersion (k := .portClaim)
          { c with status := some status } version).kept =
            some (Object.withVersion (k := .portClaim) { c with status := some status } version) :=
        fun _ _ => Object.kept_of_not_deleted (by exact deleted)
      split
      next new =>
        apply safe_writeStatus U rfl seen.known
        intro s' _ _ here
        rw [kept]
        exact .claimPending here deleted new
      next waiting =>
        apply safe_ensureBackingPort U deleted seen valid₀
        intro s₁ uid known identity
        apply safe_writeStatus U rfl known
        intro s' _ _ here
        rw [kept]
        exact .claimBound here deleted waiting identity
      · unfold Reconcile.healClaim
        split
        · trivial
        · apply safe_find
          intro s₁ valid₁ drift₁ found _
          cases found with
          | some _ => exact safe_finish
          | none =>
            exact safe_ensureBackingPort U deleted (seen.later valid₀ drift₁) valid₁
              fun _ _ _ _ => safe_finish
      · exact safe_finish

theorem safe_allocatePort (U : D.Upholds claimPrefix) {p : Port} (live : p.isBeingDeleted = false)
    (waiting : p.phase = some .pending) (known : s.Known p) :
    D.Safe (Reconcile.allocatePort p) .outside s := by
  apply safe_ask_get
  intro s₀ _ _ drift₀ _ sₑ _ driftₑ
  apply safe_ask_list
  intro s₁ valid₁ drift₁
  apply safe_ask_list
  intro s₂ valid₂ drift₂
  split
  · trivial
  next a choice =>
    have known₀ := known.mono (D.rely_evolves drift₀)
    have known₁ := (known₀.mono (D.rely_evolves driftₑ)).mono (D.rely_evolves drift₁)
    have only : p.allocated a = { p with status := (p.allocated a).status } := rfl
    apply safe_writeStatus U only (known₁.mono (D.rely_evolves drift₂))
    intro s' _ drift' here
    rw [Object.kept_of_not_deleted (by exact live)]
    exact .allocate here live waiting ⟨valid₁, valid₂, drift₂, drift', choice⟩

theorem safe_checkClaim {r : ClaimReference} {next : Bool → Pass Outcome}
    (h : ∀ s', D.inv s' → D.rely .outside s s' → ∀ isLive, (isLive = false → D.Unclaimed r s') →
      D.Safe (next isLive) .outside s') :
    D.Safe (Reconcile.checkClaim r next) .outside s := by
  apply safe_find
  intro s' valid drift found told
  apply h s' valid drift
  intro gone
  rcases told with is | ⟨_, fails⟩
  · rw [is] at gone
    exact Or.inl gone
  · exact Or.inr fails

theorem safe_deletePort (U : D.Upholds claimPrefix) {p : Port} {r : ClaimReference}
    (settled : p.phase = some .settled) (owner : p.spec.claimRef = some r) (seen : D.Seen p s)
    (valid : D.inv s) (orphan : D.Unclaimed r s) :
    D.Safe (Reconcile.commit (.deletePort p)) .outside s := by
  apply safe_commit
  intro s' valid' drift now
  have seen' := seen.later valid drift
  have orderly := (D.inv_orderly valid').answer now (.deletePort p)
  have orphan' : D.Once (fun s₁ => D.Seen p s₁ ∧ D.Unclaimed r s₁) s' :=
    ⟨s, valid, ⟨seen, orphan⟩, drift⟩
  rcases Store.deletePort_cases now p s' with same | ⟨old, found, holds, _, change⟩
  · exact U.idle valid' same
  · obtain ⟨n, _, carries⟩ := seen'.known.version
    have same : old.metadata.resourceVersion = p.metadata.resourceVersion := by
      simp only [Precondition.holds, carries, Bool.and_eq_true, Option.all_some,
        decide_eq_true_eq] at holds
      rw [carries, holds.2]
    rcases change with ⟨empty, puts⟩ | ⟨held, _, puts⟩
    · exact U.deed valid' orderly puts
        (.reclaim seen' settled owner orphan' found same (.inl ⟨empty, rfl⟩))
    · exact U.deed valid' orderly puts
        (.reclaim seen' settled owner orphan' found same (.inr ⟨held, now, rfl⟩))

theorem safe_port (U : D.Upholds claimPrefix) (name : String) :
    D.Safe (Reconcile.port name) .outside s := by
  apply safe_find
  intro s₀ valid₀ _ found told
  cases found with
  | none => exact safe_finish
  | some p =>
    have seen := Seen.of_find valid₀ told.stored
    cases deleted : p.isBeingDeleted with
    | true =>
      simp only [deleted, if_true]
      apply safe_finalize U (by decide) deleted seen.known
      intro deleting held
      split
      next ownerless =>
        apply safe_release U deleted deleting held seen.known
        intro s' _ _ r owner
        rw [ownerless] at owner
        contradiction
      next r owner =>
        apply safe_checkClaim
        intro s₁ valid₁ drift₁ isLive gone
        have seen₁ := seen.later valid₀ drift₁
        cases isLive with
        | true => exact safe_finish
        | false =>
          apply safe_release U deleted deleting held seen₁.known
          intro s' _ drift' r' owner'
          rw [owner] at owner'
          cases owner'
          exact ⟨s₁, valid₁, ⟨seen₁, gone rfl⟩, drift'⟩
    | false =>
      simp only [deleted, Bool.false_eq_true, if_false]
      split
      next new =>
        apply safe_writeStatus U rfl seen.known
        intro s' _ _ here
        rw [Object.kept_of_not_deleted (by exact deleted)]
        exact .portPending here deleted new
      next waiting => exact safe_allocatePort U deleted waiting seen.known
      next settled =>
        unfold Reconcile.reclaimPort
        split
        · exact safe_finish
        next r owner =>
          apply safe_checkClaim
          intro s₁ valid₁ drift₁ isLive gone
          cases isLive with
          | true => exact safe_finish
          | false =>
            exact safe_deletePort U settled owner (seen.later valid₀ drift₁) valid₁ (gone rfl)
      · exact safe_finish

/-- Under a discipline that the deeds uphold, every pass is safe from the start. -/
theorem safe_pass (U : D.Upholds claimPrefix) (now : Timestamp) (k : Kind) (ref : ObjectRef)
    (s : Store) : D.Safe (Reconcile.pass now claimPrefix k ref) .outside s := by
  cases k with
  | portClass => exact safe_portClass U ref.name
  | portPool => exact safe_portPool U now ref.name
  | portClaim => exact safe_portClaim U (ref.namespace_.getD "") ref.name
  | port => exact safe_port U ref.name
  | pod => exact safe_finish

end

end Discipline
end HostPorts
