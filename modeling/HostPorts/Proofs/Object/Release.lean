import HostPorts.Proofs.Admission.Annotations
import HostPorts.Proofs.Object.Watched

/-!
Release of tokens. Each kind has its own test for what still depends on an object under deletion,
and all of them come to this: something is stored that refers to it (`isNeeded_iff`). A pass takes
the token from an object just if nothing does, and no pass takes a finalizer from anything else
(`tokens_released_exactly`).
-/
namespace HostPorts

open Reconcile (Due StatusWrite pass subject)

def Store.IsNeeded (s : Store) (claimPrefix : String) : {k : Kind} → Object k → Prop
  | .portClass, c => ∃ name, c.metadata.name = some name ∧
    ((∃ (key : String) (p : PortPool), s.find .portPool key = some p ∧ p.spec.classRef = name) ∨
      ∃ (key : String) (p : Port), s.find .port key = some p ∧ p.spec.classRef = name)
  | .portPool, p => ∃ name, p.metadata.name = some name ∧
    ∃ (key : String) (q : Port), s.find .port key = some q ∧ q.number ≠ 0 ∧ q.poolName = some name
  | .portClaim, c => ∃ ns name, c.metadata.namespace_ = some ns ∧ c.metadata.name = some name ∧
    ∃ (key : String) (pod : Pod), s.find .pod key = some pod ∧
      pod.metadata.namespace_ = some ns ∧
      ∃ port, pod.metadata.annotationMap.find? (claimPrefix ++ "/" ++ port) = some name
  | .port, p => ∃ r, p.spec.claimRef = some r ∧ ∃ c : PortClaim,
    s.find .portClaim (ObjectRef.key ⟨some r.namespace_, r.name⟩) = some c ∧
      c.metadata.uid = some r.uid
  | .pod, _ => False

structure Object.AwaitsRelease {k : Kind} (o : Object k) (token : ProtectionToken) : Prop where
  own : k.token? = some token
  deleted : o.isBeingDeleted = true
  marked : o.phase = some .deleting
  held : token.text ∈ o.metadata.finalizerList

/-- As stored without any copy of the token: not at all, unless another finalizer is left. -/
def Object.afterRelease {k : Kind} (o : Object k) (token : ProtectionToken) (version : String) :
    Option (Object k) :=
  let others := o.metadata.finalizerList.filter (· ≠ token.text)
  if others = [] then none
  else
    some { o with
      metadata := { o.metadata with finalizers := some others, resourceVersion := some version } }

/-- Whatever was stored has the finalizers that it had, or is gone and had none. -/
def Store.KeepsFinalizers (s s' : Store) : Prop :=
  ∀ k key (o : Object k), s.find k key = some o →
    (∃ o' : Object k, s'.find k key = some o' ∧
        o'.metadata.finalizers = o.metadata.finalizers) ∨
      s'.find k key = none ∧ o.metadata.finalizerList = []

variable {now later : Timestamp} {claimPrefix : String} {s s' t : Store} {k : Kind} {key : String}
  {o : Object k} {token : ProtectionToken}

theorem PortClaim.isUsedBy_iff {name : String} {pod : Pod} :
    isUsedBy name claimPrefix pod = true ↔
      ∃ port, pod.metadata.annotationMap.find? (claimPrefix ++ "/" ++ port) = some name := by
  simp [isUsedBy, ← mem_claimAnnotations]

theorem Store.isNeeded_iff (placed : o.PlacedAt key) :
    s.IsNeeded claimPrefix o ↔ s.HasDependent claimPrefix o := by
  obtain ⟨name, named⟩ := Option.ne_none_iff_exists'.mp placed.named
  have shown : o.displayName = name := by simp [Object.displayName, Metadata.displayName, named]
  cases k with
  | portClass => simp [IsNeeded, HasDependent, named]
  | portPool => simp [IsNeeded, HasDependent, named, shown, and_comm]
  | portClaim =>
    have within : o.metadata.namespace_ ≠ none := by
      intro none
      exact absurd (placed.within.mp none) (by decide)
    obtain ⟨ns, within⟩ := Option.ne_none_iff_exists'.mp within
    simp [IsNeeded, HasDependent, named, shown, within, PortClaim.isUsedBy_iff]
  | port => simp [IsNeeded, HasDependent, hasClaim_iff]
  | pod => rfl

namespace Object

theorem AwaitsRelease.isProtected (awaits : o.AwaitsRelease token) : o.isProtected = true := by
  simp [Object.isProtected, awaits.own, ProtectionToken.isHeldBy, awaits.held]

theorem awaitsRelease_of_isProtected (deleted : o.isBeingDeleted = true)
    (marked : o.phase = some .deleting) (held : o.isProtected = true) :
    ∃ token, o.AwaitsRelease token := by
  obtain ⟨token, own, held⟩ := (Option.any_eq_true ..).mp held
  exact ⟨token, own, deleted, marked, List.contains_iff_mem.mp held⟩

theorem AwaitsRelease.kept (awaits : o.AwaitsRelease token) (version : String) :
    (o.released.withVersion version).kept = o.afterRelease token version := by
  obtain ⟨own, deleted, _, held⟩ := awaits
  obtain ⟨finalizers, is⟩ : ∃ finalizers, o.metadata.finalizers = some finalizers := by
    cases is : o.metadata.finalizers with
    | none => simp [Metadata.finalizerList, is] at held
    | some finalizers => exact ⟨finalizers, rfl⟩
  have released : o.released = { o with
      metadata := { o.metadata with
        finalizers := some (finalizers.filter (· ≠ token.text)) } } := by
    simp only [Object.released, own, ProtectionToken.release, is]
  have purged : (o.released.withVersion version).isPurged = true ↔
      finalizers.filter (· ≠ token.text) = [] := by
    rw [isPurged, withVersion, released]
    change (o.isBeingDeleted && (finalizers.filter (· ≠ token.text)).isEmpty) = true ↔ _
    rw [deleted, Bool.true_and, List.isEmpty_iff]
  simp only [Object.kept, purged, afterRelease, Metadata.finalizerList, is, Option.getD_some]
  rw [released]
  rfl

end Object

namespace Store.KeepsFinalizers

theorem of_unchanged (same : s.Unchanged s') : s.KeepsFinalizers s' :=
  fun k key o found => Or.inl ⟨o, (same.find k key).trans found, rfl⟩

theorem of_puts {new : Option (Object k)} (puts : s.Puts s' k key new)
    (heir : ∀ o, s.find k key = some o →
      (∃ o', new = some o' ∧ o'.metadata.finalizers = o.metadata.finalizers) ∨
        new = none ∧ o.metadata.finalizerList = []) : s.KeepsFinalizers s' := by
  intro k' key' o found
  by_cases kinds : k' = k
  · subst kinds
    by_cases keys : key' = key
    · subst keys
      rw [puts.here]
      exact heir o found
    · exact Or.inl ⟨o, (puts.beside key' keys).trans found, rfl⟩
  · exact Or.inl ⟨o, (puts.find_other kinds key').trans found, rfl⟩

theorem head (kept : t.KeepsFinalizers s')
    (adds : ∀ k key (o : Object k), s.find k key = some o → t.find k key = some o) :
    s.KeepsFinalizers s' :=
  fun k key o found => kept k key o (adds k key o found)

end Store.KeepsFinalizers

namespace Reconcile

theorem due_of_awaitsRelease {p : Pass Outcome} (awaits : o.AwaitsRelease token)
    (due : Due now claimPrefix s o p) :
    p = finish ∧ s.HasDependent claimPrefix o ∨
      p = release o ∧ ¬ s.HasDependent claimPrefix o := by
  have deleted := awaits.deleted
  -- but for three cases, what can be due is due for objects that nobody asked to delete
  cases due with
  | idle idle =>
    cases idle with
    | released _ _ free => simp [awaits.isProtected] at free
    | needed _ _ dependent => exact Or.inl ⟨rfl, dependent⟩
    | settled _ live | overlapping live | backed live | incomplete live | classless live
    | unserved live | owned live | misplaced _ live => simp [deleted] at live
  | status write =>
    cases write with
    | mark _ _ first => exact absurd awaits.marked first
    | classPhase live | poolPending live | poolUnchecked live | poolChecked live | poolPassed live
    | claimPending live | claimBound live | portPending live | allocated live =>
      simp [deleted] at live
  | release _ _ _ clear => exact Or.inr ⟨rfl, clear⟩
  | bind live | restore live | reclaim live => simp [deleted] at live

theorem keepsFinalizers_statusWrite {new : Object k} (write : StatusWrite now s o new)
    (here : s.find k o.key = some o) :
    s.KeepsFinalizers (s.run later (writeStatus new)).2 := by
  rcases run_statusWrite later write here with ⟨_, fails⟩ | ⟨_, _, _, puts⟩
  · rw [fails]
    exact .of_unchanged ⟨fun k => by cases k <;> rfl, rfl, rfl⟩
  · apply Store.KeepsFinalizers.of_puts puts
    intro old found
    cases here.symm.trans found
    have same : (new.withVersion s.nextVersion).metadata.finalizers = o.metadata.finalizers := by
      rw [write.only]
      rfl
    rw [Metadata.finalizerList, ← same]
    exact (new.withVersion s.nextVersion).kept_or_unheld.imp (fun kept => ⟨_, kept, rfl⟩) id

theorem keepsFinalizers_ensureBackingPort {c : PortClaim} {ns uid : String}
    {next : String → Pass Outcome} (within : c.metadata.namespace_ = some ns)
    (identity : c.metadata.uid = some uid)
    (rest : ∀ t : Store, (∀ k key (o : Object k), s.find k key = some o → t.find k key = some o) →
      t.KeepsFinalizers (t.run later (next (portNameForClaim uid))).2) :
    s.KeepsFinalizers (s.run later (ensureBackingPort c next)).2 := by
  cases stored : s.find .port (portNameForClaim uid) with
  | none =>
    obtain ⟨t, goes, _, puts⟩ := run_ensureBackingPort_free later next within identity stored
    rw [goes]
    exact (rest t (puts.adds stored)).head (puts.adds stored)
  | some p =>
    have same := Store.unchanged_countWrite s
    have adds (k : Kind) (key : String) (o : Object k) (found : s.find k key = some o) :
        s.countWrite.find k key = some o := (same.find k key).trans found
    rw [run_ensureBackingPort_taken later next within identity stored]
    exact (rest _ adds).head adds

theorem keepsFinalizers_due {p : Pass Outcome} (here : s.find k o.key = some o)
    (placed : o.PlacedAt o.key) (due : Due now claimPrefix s o p)
    (needed : ∀ token, o.AwaitsRelease token → s.HasDependent claimPrefix o) :
    s.KeepsFinalizers (s.run later p).2 := by
  cases due with
  | idle => exact .of_unchanged (.refl s)
  | status write => exact keepsFinalizers_statusWrite write here
  | release deleted marked held clear =>
    obtain ⟨token, awaits⟩ := Object.awaitsRelease_of_isProtected deleted marked held
    exact absurd (needed token awaits) clear
  | bind live waiting within identity =>
    refine keepsFinalizers_ensureBackingPort within identity fun t adds => ?_
    have write : StatusWrite now t _ _ := .claimBound live waiting identity
    exact keepsFinalizers_statusWrite write (adds _ _ _ here)
  | restore _ _ _ _ within identity =>
    exact keepsFinalizers_ensureBackingPort within identity fun t _ => .of_unchanged (.refl t)
  | @reclaim p r live settled owner orphan =>
    rw [← placed.displayName] at here
    obtain ⟨_, _, change⟩ := Store.deletePort_puts later here live
    rw [run_commit]
    rcases change with ⟨unheld, puts⟩ | ⟨_, puts⟩
    · apply Store.KeepsFinalizers.of_puts puts
      intro old found
      cases here.symm.trans found
      exact Or.inr ⟨rfl, unheld⟩
    · apply Store.KeepsFinalizers.of_puts puts
      intro old found
      cases here.symm.trans found
      exact Or.inl ⟨_, rfl, rfl⟩

end Reconcile

/-- In any store whose objects stand under their own keys, a pass over an object that awaits its
release does not fail. While the object is needed it leaves the whole store as it was; otherwise it
takes the token from the object, and lets the object go unless another finalizer is left. All other
passes leave every object its finalizers. -/
theorem tokens_released_exactly {s : Store} (placed : s.Placed) (now later : Timestamp)
    (claimPrefix : String) :
    (∀ k key (o : Object k) token, s.find k key = some o → o.AwaitsRelease token →
      (s.IsNeeded claimPrefix o → s.run later (pass now claimPrefix k o.ref) = (.ok (), s)) ∧
      (¬ s.IsNeeded claimPrefix o → ∃ s',
        s.run later (pass now claimPrefix k o.ref) = (.ok (), s') ∧
        s.Puts s' k key (o.afterRelease token s.nextVersion))) ∧
    ∀ k ref,
      (∀ (o : Object k) token, s.find k (subject k ref).key = some o → o.AwaitsRelease token →
        s.IsNeeded claimPrefix o) →
      s.KeepsFinalizers (s.run later (pass now claimPrefix k ref)).2 := by
  constructor
  · intro k key o token found awaits
    have controlled : k ≠ .pod := by
      rintro rfl
      exact nomatch awaits.own
    have stands := placed k key o controlled found
    rw [Store.isNeeded_iff stands]
    rw [← stands.subject] at found
    obtain ⟨p, due, comes⟩ := Reconcile.comes_to_due now later claimPrefix controlled found
    rw [stands.subject, ← stands.keyed] at found
    rcases Reconcile.due_of_awaitsRelease awaits due with ⟨rfl, dependent⟩ | ⟨rfl, clear⟩
    · exact ⟨fun _ => comes, fun clear => absurd dependent clear⟩
    · obtain ⟨ok, _, puts⟩ := Reconcile.run_release later found
      rw [awaits.kept, stands.keyed] at puts
      rw [comes]
      exact ⟨fun dependent => absurd dependent clear, fun _ => ⟨_, Prod.ext ok rfl, puts⟩⟩
  · intro k ref needed
    by_cases absent : k = .pod ∨ s.find k (subject k ref).key = none
    · rw [Reconcile.run_pass_absent now later claimPrefix absent]
      exact .of_unchanged (.refl s)
    · obtain ⟨controlled, stored⟩ := not_or.mp absent
      obtain ⟨o, found⟩ := Option.ne_none_iff_exists'.mp stored
      have stands := placed k _ o controlled found
      obtain ⟨p, due, comes⟩ := Reconcile.comes_to_due now later claimPrefix controlled found
      have needed' (token : ProtectionToken) (awaits : o.AwaitsRelease token) :
          s.HasDependent claimPrefix o :=
        (Store.isNeeded_iff stands).mp (needed o token found awaits)
      rw [← stands.keyed] at found stands
      rw [comes]
      exact Reconcile.keepsFinalizers_due found stands due needed'

open Cluster (noon)

def leavingClaim (name : String) (finalizers : List String) : PortClaim where
  metadata := {
    name := some name
    namespace_ := some "t"
    deletionTimestamp := some noon
    finalizers := some finalizers }
  spec := ⟨"c"⟩
  status := some ⟨some .deleting, none⟩

def apiClaim : PortClaim :=
  leavingClaim "api" [ProtectionToken.ofClaim.text, "audit", ProtectionToken.ofClaim.text]

def webClaim : PortClaim := leavingClaim "web" [ProtectionToken.ofClaim.text]

def leavingClaims : Store where
  claims := .ofList [("t/api", apiClaim), ("t/web", webClaim)]
  pods := .ofList
    [("t/x", ⟨{ name := some "x", namespace_ := some "t",
                annotations := some (.ofList [("claims/http", "web")]) }, none, none⟩)]

theorem tokens_released_exactly_claims :
    leavingClaims.Placed ∧
    leavingClaims.run noon (pass noon "claims" .portClaim ⟨some "t", "web"⟩) =
      (.ok (), leavingClaims) ∧
    ∃ s', leavingClaims.run noon (pass noon "claims" .portClaim ⟨some "t", "api"⟩) = (.ok (), s') ∧
      (s'.find .portClaim "t/api").map (fun c => c.metadata.finalizers) = some (some ["audit"]) ∧
      leavingClaims.KeepsFinalizers
        (leavingClaims.run noon (pass noon "claims" .portClass ⟨none, "c"⟩)).2 := by
  have placed : leavingClaims.Placed := .of_entries (by decide +kernel)
  obtain ⟨released, others⟩ := tokens_released_exactly placed noon noon "claims"
  have used : leavingClaims.IsNeeded "claims" webClaim :=
    ⟨"t", "web", rfl, rfl, "t/x", _, rfl, rfl, "http", by decide +kernel⟩
  have unused : ¬ leavingClaims.IsNeeded "claims" apiClaim := by
    have none : ∀ pod ∈ leavingClaims.pods.values,
        PortClaim.isUsedBy "api" "claims" pod = false := by decide +kernel
    rintro ⟨_, _, _, named, key, pod, stored, _, uses⟩
    cases named
    have names := PortClaim.isUsedBy_iff.mpr uses
    rw [none pod (Store.mem_values (k := .pod).mpr ⟨key, stored⟩)] at names
    contradiction
  have web := released .portClaim "t/web" webClaim .ofClaim rfl ⟨rfl, rfl, rfl, by decide⟩
  have api := released .portClaim "t/api" apiClaim .ofClaim rfl ⟨rfl, rfl, rfl, by decide⟩
  obtain ⟨s', goes, puts⟩ := api.2 unused
  have absent (o : PortClass) :
      leavingClaims.find .portClass (subject .portClass ⟨none, "c"⟩).key ≠ some o := nofun
  have classes := others .portClass ⟨none, "c"⟩ fun o _ found => absurd found (absent o)
  refine ⟨placed, web.1 used, s', goes, ?_, classes⟩
  rw [puts.here]
  rfl

end HostPorts
