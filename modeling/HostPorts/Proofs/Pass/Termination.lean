import HostPorts.Proofs.Pass.Runs
import HostPorts.Proofs.Pass.Strokes
import HostPorts.Proofs.Pool.Verdict
import HostPorts.Proofs.Store.Total

/-!
Passes that nobody disturbs come to an end. Every object has a number of writes ahead of it, and a
live claim without a live port of its own has those of a port to be made besides; each stroke of a
pass takes from the sum over the store (`Stroke.workLeft_lt`), though one may make a port and
another may take away what had been in the way of an allocation. So no sequence of passes changes
the stored objects for ever (`no_endless_stirring`).
-/
namespace HostPorts

open Reconcile (StatusWrite Stroke Strokes)

namespace Object

variable {k : Kind} {now : Timestamp} {s : Store} {o new : Object k}

def checksAhead : {k : Kind} → Object k → Nat
  | .portPool, p =>
    match PortPool.overlapStatus p with
    | none => 2
    | some .unknown => 1
    | some _ => 0
  | _, _ => 0

/-- How often passes may still write an object, at most. -/
def writesAhead (o : Object k) : Nat :=
  if o.isBeingDeleted then
    if o.phase = some .deleting then if o.isProtected then 1 else 0 else 2
  else
    match o.phase with
    | none => 5 + o.checksAhead
    | some .pending => 4 + o.checksAhead
    | some .settled => 3
    | some .deleting => 0

theorem writesAhead_withVersion (o : Object k) (version : String) :
    (o.withVersion version).writesAhead = o.writesAhead := by cases k <;> rfl

theorem finalizerList_released {token : ProtectionToken} (own : k.token? = some token)
    (o : Object k) :
    o.released.metadata.finalizerList = o.metadata.finalizerList.filter (· ≠ token.text) := by
  obtain ⟨metadata, spec, status⟩ := o
  simp only [released, own, ProtectionToken.release, Metadata.finalizerList]
  cases held : metadata.finalizers with
  | none => simp [held]
  | some list => simp

theorem isProtected_released (o : Object k) : o.released.isProtected = false := by
  unfold isProtected
  cases own : k.token? with
  | none => rfl
  | some token => simp [ProtectionToken.isHeldBy, o.finalizerList_released own]

theorem kept_released {token : ProtectionToken} (own : k.token? = some token)
    (deleted : o.isBeingDeleted = true) (tokens : ∀ f ∈ o.metadata.finalizerList, f = token.text)
    (version : String) : (o.released.withVersion version).kept = none := by
  have free : (o.released.withVersion version).metadata.finalizerList = [] := by
    refine (o.finalizerList_released own).trans (List.filter_eq_nil_iff.mpr ?_)
    intro f among
    simp [tokens f among]
  have deleted' : (o.released.withVersion version).isBeingDeleted = true := by
    rw [o.released_only]
    exact deleted
  simp [kept, isPurged, free, deleted']

theorem isProtected_of_tokens {token : ProtectionToken} (own : k.token? = some token)
    (held : o.metadata.finalizerList ≠ [])
    (tokens : ∀ f ∈ o.metadata.finalizerList, f = token.text) : o.isProtected = true := by
  obtain ⟨f, among⟩ := List.exists_mem_of_ne_nil _ held
  rw [tokens f among] at among
  simpa [isProtected, own, ProtectionToken.isHeldBy] using among

theorem writesAhead_released (deleted : o.isBeingDeleted = true)
    (marked : o.phase = some .deleting) : o.released.writesAhead = 0 := by
  have deleted' : o.released.isBeingDeleted = true := by
    rw [o.released_only]
    exact deleted
  have marked' : o.released.phase = some .deleting := by
    rw [phase, o.released_status]
    exact marked
  simp [writesAhead, deleted', marked', isProtected_released]

theorem writesAhead_lt (write : StatusWrite now s o new) : new.writesAhead < o.writesAhead := by
  have still : new.isBeingDeleted = o.isBeingDeleted := by
    rw [write.only]
    rfl
  cases write with
  | mark controlled deleted first =>
    have marked := phase_withPhase controlled o .deleting
    simp only [writesAhead, still, deleted, marked, first, if_true, if_false]
    split <;> decide
  | @classPhase c phase' live next =>
    have phase := phase_withPhase (by decide) c phase'
    rcases next with ⟨old, rfl⟩ | ⟨old, rfl⟩ <;>
      simp [writesAhead, still, live, phase, old, checksAhead]
  | @poolPending p live first =>
    have phase := phase_withPhase (by decide) p .pending
    have verdict := PortPool.overlapStatus_withPhase (p := p) .pending
    simp [writesAhead, still, live, phase, first, checksAhead, verdict]
  | poolUnchecked live waiting first =>
    simp [writesAhead, still, live, PortPool.phase_withOverlap, waiting, checksAhead, first,
      PortPool.overlapStatus_withOverlap]
  | @poolChecked p live waiting due =>
    rcases p.checked_cases s.pools.values now with ⟨verdict, same⟩ | ⟨_, _, settled⟩
    · simp [writesAhead, still, live, same, waiting, checksAhead, due, verdict]
    · simp [writesAhead, still, live, settled, waiting, checksAhead, due]
  | @poolPassed p live waiting clear =>
    have phase := phase_withPhase (by decide) p .settled
    simp [writesAhead, still, live, phase, waiting, checksAhead, clear]
  | @claimPending c live first =>
    have phase : Object.phase { c with status := some ⟨some .pending, none⟩ } = some .pending := rfl
    simp [writesAhead, still, live, phase, first, checksAhead]
  | @claimBound c uid live waiting identity =>
    have phase : Object.phase { c with status := some ⟨some .settled, some (portNameForClaim uid)⟩ }
      = some .settled := rfl
    simp [writesAhead, still, live, phase, waiting, checksAhead]
  | @portPending p live first =>
    have phase : Object.phase { p with status := some ⟨some .pending, 0, none⟩ } = some .pending :=
      rfl
    simp [writesAhead, still, live, phase, first, checksAhead]
  | @allocated p a live waiting served choice =>
    have phase : (p.allocated a).phase = some .settled := rfl
    simp [writesAhead, still, live, phase, waiting, checksAhead]

end Object

namespace Store

def hasLiveClaim (s : Store) (r : ClaimReference) : Bool :=
  (s.find .portClaim (ObjectRef.key ⟨some r.namespace_, r.name⟩)).any
    fun c => decide (c.metadata.uid = some r.uid) && !c.isBeingDeleted

/-- The port stays as long as nobody else asks to delete it or its claim. -/
def keeps (s : Store) (name : String) : Bool :=
  (s.find .port name).any fun p => !p.isBeingDeleted && p.spec.claimRef.any s.hasLiveClaim

def portsAhead (s : Store) : {k : Kind} → Object k → Nat
  | .portClaim, c =>
    if !c.isBeingDeleted && c.metadata.uid.any fun uid => !s.keeps (portNameForClaim uid)
    then 1 else 0
  | _, _ => 0

/-- How many writes passes may still make on behalf of the object: a port that is made has five
writes ahead of it, and to make it is one more. -/
def workFor (s : Store) (k : Kind) (o : Object k) : Nat := o.writesAhead + 6 * s.portsAhead o

def workLeft (s : Store) : Nat := s.total s.workFor

def Spares (s s' : Store) : Prop :=
  ∀ k key (o : Object k), s.find k key = some o → o.isBeingDeleted = false →
    ∃ o', s'.find k key = some o' ∧ o'.Succeeds o ∧ o'.isBeingDeleted = false

variable {s s' : Store} {k : Kind} {key name : String}

theorem hasLiveClaim_iff {r : ClaimReference} : s.hasLiveClaim r = true ↔
    ∃ c, s.find .portClaim (ObjectRef.key ⟨some r.namespace_, r.name⟩) = some c ∧
      c.metadata.uid = some r.uid ∧ c.isBeingDeleted = false := by
  simp [hasLiveClaim, Option.any_eq_true]

theorem keeps_iff : s.keeps name = true ↔
    ∃ p : Port, s.find .port name = some p ∧ p.isBeingDeleted = false ∧
      ∃ r, p.spec.claimRef = some r ∧ s.hasLiveClaim r = true := by
  simp [keeps, Option.any_eq_true]

theorem hasClaim_of_hasLiveClaim {r : ClaimReference} (h : s.hasLiveClaim r = true) :
    s.hasClaim r = true := by
  obtain ⟨c, found, uid, _⟩ := hasLiveClaim_iff.mp h
  simp [hasClaim, found, uid]

theorem portsAhead_eq {o o' : Object k} (uid : o'.metadata.uid = o.metadata.uid)
    (still : o'.isBeingDeleted = o.isBeingDeleted) : s.portsAhead o' = s.portsAhead o := by
  cases k with
  | portClaim => simp only [portsAhead, uid, still]
  | _ => rfl

theorem workFor_kept_lt {o o' : Object k} (uid : o'.metadata.uid = o.metadata.uid)
    (still : o'.isBeingDeleted = o.isBeingDeleted) (fewer : o'.writesAhead < o.writesAhead) :
    o'.kept.elim 0 (s.workFor k) < s.workFor k o := by
  have same := s.portsAhead_eq uid still
  unfold Object.kept
  split
  · simp only [workFor, Option.elim]
    omega
  · simp only [workFor, Option.elim, same]
    omega

theorem Puts.workLeft_lt {o : Object k} {new : Option (Object k)} (puts : s.Puts s' k key new)
    (here : s.find k key = some o) (never_more : ∀ k (o : Object k), s'.workFor k o ≤ s.workFor k o)
    (fewer : new.elim 0 (s.workFor k) < s.workFor k o) : s'.workLeft < s.workLeft := by
  have exchanged := puts.total s.workFor
  rw [here, Option.elim_some] at exchanged
  calc s'.workLeft ≤ s'.total s.workFor := total_le_total never_more
    _ < s.total s.workFor := by omega

theorem Puts.spares {new : Option (Object k)} (puts : s.Puts s' k key new)
    (heir : ∀ o, s.find k key = some o → o.isBeingDeleted = false →
      ∃ o', new = some o' ∧ o'.Succeeds o ∧ o'.isBeingDeleted = false) : s.Spares s' := by
  intro k' key' o found live
  by_cases kinds : k' = k
  · subst kinds
    by_cases same : key' = key
    · subst same
      rw [puts.here]
      exact heir o found live
    · rw [puts.beside key' same]
      exact ⟨o, found, .refl o, live⟩
  · rw [puts.find_other kinds]
    exact ⟨o, found, .refl o, live⟩

namespace Spares

theorem of_unchanged (same : s.Unchanged s') : s.Spares s' := by
  intro k key o found live
  rw [same.find]
  exact ⟨o, found, .refl o, live⟩

theorem hasLiveClaim (h : s.Spares s') {r : ClaimReference} (lives : s.hasLiveClaim r = true) :
    s'.hasLiveClaim r = true := by
  obtain ⟨c, found, uid, live⟩ := hasLiveClaim_iff.mp lives
  obtain ⟨c', found', succeeds, live'⟩ := h .portClaim _ c found live
  exact hasLiveClaim_iff.mpr ⟨c', found', succeeds.uid.trans uid, live'⟩

theorem keeps (h : s.Spares s') (kept : s.keeps name = true) : s'.keeps name = true := by
  obtain ⟨p, found, live, r, owner, lives⟩ := keeps_iff.mp kept
  obtain ⟨p', found', succeeds, live'⟩ := h .port name p found live
  refine keeps_iff.mpr ⟨p', found', live', r, ?_, h.hasLiveClaim lives⟩
  rw [succeeds.spec, owner]

end Spares

end Store

namespace Reconcile.Stroke

variable {now : Timestamp} {claimPrefix : String} {s s' : Store} {name : String}

theorem keeps (stroke : Stroke now claimPrefix s s') (kept : s.keeps name = true) :
    s'.keeps name = true := by
  cases stroke with
  | idle same => exact (Store.Spares.of_unchanged same).keeps kept
  | @status k o new here write puts =>
    refine Store.Spares.keeps (puts.spares ?_) kept
    intro old found live
    cases here.symm.trans found
    have live' := (write.isBeingDeleted s.nextVersion).trans live
    exact ⟨_, Object.kept_of_not_deleted live', write.succeeds _, live'⟩
  | @release k o here deleted _ _ _ puts =>
    refine Store.Spares.keeps (puts.spares ?_) kept
    intro old found live
    cases here.symm.trans found
    exact absurd live (by simp [deleted])
  | create _ _ _ _ free puts =>
    refine Store.Spares.keeps (puts.spares ?_) kept
    intro old found
    exact absurd (free.symm.trans found) nofun
  | @reclaim p r gone here live settled owner orphan goes puts =>
    obtain ⟨q, found, live', r', owner', lives⟩ := Store.keeps_iff.mp kept
    have other : name ≠ p.key := by
      rintro rfl
      cases here.symm.trans found
      cases owner.symm.trans owner'
      simp [Store.hasClaim_of_hasLiveClaim lives] at orphan
    refine Store.keeps_iff.mpr ⟨q, (puts.beside name other).trans found, live', r', owner', ?_⟩
    rwa [Store.hasLiveClaim, puts.find_other (by decide)]

theorem portsAhead_le (stroke : Stroke now claimPrefix s s') {k : Kind} (o : Object k) :
    s'.portsAhead o ≤ s.portsAhead o := by
  cases k with
  | portClaim =>
    simp only [Store.portsAhead]
    cases identity : o.metadata.uid with
    | none => simp
    | some uid =>
      cases kept : s.keeps (portNameForClaim uid) with
      | true => simp [stroke.keeps kept]
      | false =>
        simp only [Option.any_some, kept, Bool.not_false, Bool.and_true]
        split <;> simp_all
  | _ => exact Nat.le_refl 0

theorem workFor_le (stroke : Stroke now claimPrefix s s') (k : Kind) (o : Object k) :
    s'.workFor k o ≤ s.workFor k o := by
  have := stroke.portsAhead_le o
  simp only [Store.workFor]
  omega

theorem keeps_create {c : PortClaim} {ns uid : String} {i : Identity} (stands : c.PlacedAt c.key)
    (here : s.find .portClaim c.key = some c) (live : c.isBeingDeleted = false)
    (within : c.metadata.namespace_ = some ns) (identity : c.metadata.uid = some uid)
    (puts : s.Puts s' .port (portNameForClaim uid) (some ((c.backingPort ns uid).identified i))) :
    s'.keeps (portNameForClaim uid) = true := by
  obtain ⟨name, named⟩ := Option.ne_none_iff_exists'.mp stands.named
  refine Store.keeps_iff.mpr ⟨_, puts.here, rfl, _, rfl, ?_⟩
  refine Store.hasLiveClaim_iff.mpr ⟨c, ?_, identity, live⟩
  rw [puts.find_other (by decide), ← here]
  simp [Object.key, Object.ref, Object.displayName, Metadata.displayName, within, named]

/-- A stroke that changes an object leaves less to do. -/
theorem workLeft_lt (stroke : Stroke now claimPrefix s s') (placed : s.Placed) :
    s.Unchanged s' ∨ s'.workLeft < s.workLeft := by
  have never_more := stroke.workFor_le
  cases stroke with
  | idle same => exact Or.inl same
  | status here write puts =>
    refine Or.inr (puts.workLeft_lt here never_more ?_)
    apply Store.workFor_kept_lt (write.succeeds _).uid (write.isBeingDeleted _)
    rw [Object.writesAhead_withVersion]
    exact Object.writesAhead_lt write
  | @release k o here deleted marked held clear puts =>
    refine Or.inr (puts.workLeft_lt here never_more ?_)
    apply Store.workFor_kept_lt (o.released_succeeds _).uid
    · rw [o.released_only]
      rfl
    · rw [Object.writesAhead_withVersion, Object.writesAhead_released deleted marked]
      simp [Object.writesAhead, deleted, marked, held]
  | @create c ns uid i here live within identity free puts =>
    have kept := keeps_create (placed _ _ c nofun here) here live within identity puts
    have unkept : s.keeps (portNameForClaim uid) = false := by simp [Store.keeps, free]
    have gain : s'.workFor .portClaim c + 6 ≤ s.workFor .portClaim c := by
      simp [Store.workFor, Store.portsAhead, live, identity, kept, unkept]
    have here' : s'.find .portClaim c.key = some c := by rwa [puts.find_other (by decide)]
    have relieved := Store.total_add_le never_more here' gain
    have made : s.workFor .port ((c.backingPort ns uid).identified i) = 5 := rfl
    have exchanged := puts.total s.workFor
    rw [free, Option.elim_none, Option.elim_some, made] at exchanged
    refine Or.inr ?_
    rw [Store.workLeft, Store.workLeft]
    omega
  | @reclaim p r gone here live settled owner orphan goes puts =>
    refine Or.inr (puts.workLeft_lt here never_more ?_)
    have ahead : s.workFor .port p = 3 := by
      simp [Store.workFor, Store.portsAhead, Object.writesAhead, live, settled]
    rw [ahead]
    rcases goes with rfl | ⟨at_, version, rfl⟩
    · exact Nat.zero_lt_succ 2
    · have settled' : (p.marked at_ version).phase = some .settled := settled
      have deleted : (p.marked at_ version).isBeingDeleted = true := rfl
      simp [Store.workFor, Store.portsAhead, Object.writesAhead, deleted, settled']

end Reconcile.Stroke

namespace Store

open Cluster (noon)

variable {now : Timestamp} {claimPrefix : String} {s s' : Store}

theorem SameObjects.workLeft (same : s.SameObjects s') : s'.workLeft = s.workLeft := by
  have objects : s'.find = s.find := by
    funext k key
    exact same.find k key
  have claims : s'.hasLiveClaim = s.hasLiveClaim := by
    funext r
    rw [hasLiveClaim, objects, hasLiveClaim]
  have ports : s'.keeps = s.keeps := by
    funext name
    rw [keeps, objects, claims, keeps]
  have work : s'.workFor = s.workFor := by
    funext k o
    cases k <;> simp only [workFor, portsAhead, ports]
  have tables : s'.table = s.table := funext same
  simp only [Store.workLeft, total, work, tables]

theorem workLeft_strokes (placed : s.Placed) (strokes : Strokes now claimPrefix s s') :
    s.SameObjects s' ∨ s'.workLeft < s.workLeft := by
  induction strokes with
  | refl => exact Or.inl fun _ => rfl
  | @tail mid last before stroke ih =>
    rcases stroke.workLeft_lt (placed.strokes before) with unchanged | less
    · have same : mid.SameObjects last := unchanged.table
      rcases ih with still | less
      · exact Or.inl fun k => (same k).trans (still k)
      · exact Or.inr (by rwa [same.workLeft])
    · rcases ih with still | less'
      · exact Or.inr (by rwa [← still.workLeft])
      · exact Or.inr (less.trans less')

/-- A whole pass that changes the stored objects, of any kind, over any reference, at any time. -/
def Stirs (claimPrefix : String) (s s' : Store) : Prop :=
  ∃ (now later : Timestamp) (k : Kind) (ref : ObjectRef),
    s' = (s.run later (Reconcile.pass now claimPrefix k ref)).2 ∧ ¬ s.SameObjects s'

theorem Stirs.workLeft_lt (placed : s.Placed) (stirs : s.Stirs claimPrefix s') :
    s'.Placed ∧ s'.workLeft < s.workLeft := by
  obtain ⟨now, later, k, ref, rfl, changed⟩ := stirs
  have strokes := Reconcile.strokes_pass placed now later claimPrefix k ref
  exact ⟨placed.strokes strokes, (workLeft_strokes placed strokes).resolve_left changed⟩

/-- What is left bounds the number of passes that change anything. -/
theorem stirring_bounded {states : Nat → Store} (placed : (states 0).Placed) (n : Nat)
    (stirs : ∀ i < n, (states i).Stirs claimPrefix (states (i + 1))) :
    (states n).Placed ∧ (states n).workLeft + n ≤ (states 0).workLeft := by
  induction n with
  | zero => exact ⟨placed, Nat.le_refl _⟩
  | succ n ih =>
    obtain ⟨placed', bounded⟩ := ih fun i below => stirs i (Nat.lt_succ_of_lt below)
    obtain ⟨placed'', less⟩ := (stirs n (Nat.lt_succ_self n)).workLeft_lt placed'
    exact ⟨placed'', by omega⟩

/-- Undisturbed passes do not change the stored objects for ever, whatever is recorded in them. -/
theorem no_endless_stirring (placed : s.Placed) (claimPrefix : String) :
    ¬ ∃ states : Nat → Store, states 0 = s ∧
      ∀ n, (states n).Stirs claimPrefix (states (n + 1)) := by
  rintro ⟨states, rfl, stirs⟩
  have := (stirring_bounded placed ((states 0).workLeft + 1) fun i _ => stirs i).2
  omega

/-- A bound claim records a port of another name, and the port under the name that is its own is an
orphan of an earlier claim. The pool leaves with one token of two, the class is recorded as leaving
though nobody asked for that. -/
def disordered : Store where
  classes := .ofList [("c", ⟨{ name := some "c" }, ⟨⟩, some ⟨some .deleting⟩⟩)]
  pools := .ofList [("n",
    ⟨{ name := some "n", deletionTimestamp := some noon,
       finalizers := some ["audit", ProtectionToken.ofPool.text] }, ⟨"c", 0, 9, true⟩, none⟩)]
  claims := .ofList [("t/web",
    ⟨{ name := some "web", namespace_ := some "t", uid := some "new" }, ⟨"c"⟩,
      some ⟨some .settled, some "elsewhere"⟩⟩)]
  ports := .ofList [("claim-new",
    ⟨{ name := some "claim-new", uid := some "p" }, ⟨some ⟨"t", "web", "old"⟩, "c"⟩,
      some ⟨some .settled, 5000, some "n"⟩⟩)]

theorem no_endless_stirring_disordered :
    disordered.Placed ∧
      disordered.Stirs "claims"
        (disordered.run noon (Reconcile.pass noon "claims" .port ⟨none, "claim-new"⟩)).2 ∧
      ¬ ∃ states : Nat → Store, states 0 = disordered ∧
        ∀ n, (states n).Stirs "claims" (states (n + 1)) := by
  have placed : disordered.Placed := .of_entries (by decide +kernel)
  refine ⟨placed, ⟨noon, noon, .port, _, rfl, ?_⟩, no_endless_stirring placed "claims"⟩
  intro same
  have gone : (disordered.run noon (Reconcile.pass noon "claims" .port ⟨none, "claim-new"⟩)).2.ports
      ≠ disordered.ports := by decide +kernel
  exact gone (same .port)

end Store
end HostPorts
