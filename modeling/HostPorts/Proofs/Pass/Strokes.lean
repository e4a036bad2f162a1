import Mathlib.Logic.Relation
import HostPorts.Proofs.Pass.Due

/-!
What an undisturbed pass does to a store. Each of its strokes leaves all objects alone, or gives one
stored object its next version, takes it away or makes a backing port; a whole pass is a course of
such strokes. Unlike with the deeds of interleaved passes, nothing is asked of uids and
versions: objects need only stand under their own keys.
-/
namespace HostPorts

structure Object.PlacedAt {k : Kind} (o : Object k) (key : String) : Prop where
  keyed : o.key = key
  named : o.metadata.name ≠ none
  within : o.metadata.namespace_ = none ↔ k.isNamespaced = false

/-- Of pods nothing is asked. -/
def Store.Placed (s : Store) : Prop :=
  ∀ k key (o : Object k), k ≠ .pod → s.find k key = some o → o.PlacedAt key

instance {k : Kind} (o : Object k) (key : String) : Decidable (o.PlacedAt key) :=
  decidable_of_iff
    (o.key = key ∧ o.metadata.name ≠ none ∧
      (o.metadata.namespace_ = none ↔ k.isNamespaced = false))
    ⟨fun ⟨keyed, named, within⟩ => ⟨keyed, named, within⟩, fun h => ⟨h.keyed, h.named, h.within⟩⟩

namespace Object.PlacedAt

variable {k : Kind} {o new : Object k} {key : String}

theorem next (h : o.PlacedAt key) (succeeds : new.Succeeds o) : new.PlacedAt key := by
  obtain ⟨keyed, named, within⟩ := h
  refine ⟨?_, ?_, ?_⟩
  · rw [← keyed, Object.key, Object.key, Object.ref, Object.ref, succeeds.name,
      succeeds.namespace_]
  · rwa [succeeds.name]
  · rwa [succeeds.namespace_]

theorem subject (h : o.PlacedAt key) : (Reconcile.subject k o.ref).key = key := by
  rw [← h.keyed, Object.key, Reconcile.subject]
  congr 2
  cases namespaced : k.isNamespaced with
  | true =>
    have : o.metadata.namespace_ ≠ none := fun none => by simp [h.within.mp none] at namespaced
    obtain ⟨ns, within⟩ := Option.ne_none_iff_exists'.mp this
    simp [Object.ref, within]
  | false => simp [h.within.mpr namespaced]

theorem displayName {p : Port} (h : p.PlacedAt key) : p.displayName = key := by
  obtain ⟨name, named⟩ := Option.ne_none_iff_exists'.mp h.named
  rw [← h.keyed]
  simp [Object.displayName, Metadata.displayName, Object.key, Object.ref, ObjectRef.key, named,
    h.within.mpr rfl]

end Object.PlacedAt

namespace Reconcile

variable {now later : Timestamp} {claimPrefix : String} {s s' : Store} {k : Kind} {o new : Object k}

namespace StatusWrite

theorem only (write : StatusWrite now s o new) : new = { o with status := new.status } := by
  cases write with
  | mark => exact o.withPhase_only .deleting
  | poolChecked => exact PortPool.checked_only ..
  | classPhase | poolPending | poolUnchecked | poolPassed | claimPending | claimBound | portPending
  | allocated => rfl

theorem succeeds (write : StatusWrite now s o new) (version : String) :
    (new.withVersion version).Succeeds o := by
  rw [write.only]
  exact o.withStatus_succeeds ..

theorem isBeingDeleted (write : StatusWrite now s o new) (version : String) :
    (new.withVersion version).isBeingDeleted = o.isBeingDeleted := by
  rw [write.only]
  rfl

theorem early (write : StatusWrite now s o new) (live : o.isBeingDeleted = false) :
    o.phase = none ∨ o.phase = some .pending := by
  cases write with
  | mark _ deleted => simp [live] at deleted
  | classPhase _ next => exact next.imp (fun h => h.1) fun h => h.1
  | poolPending _ first | claimPending _ first | portPending _ first => exact Or.inl first
  | poolUnchecked _ waiting | poolChecked _ waiting | poolPassed _ waiting | claimBound _ waiting
  | allocated _ waiting => exact Or.inr waiting

theorem marks (write : StatusWrite now s o new) (deleted : o.isBeingDeleted = true) :
    new = o.withPhase .deleting := by
  cases write with
  | mark => rfl
  | classPhase live | poolPending live | poolUnchecked live | poolChecked live | poolPassed live
  | claimPending live | claimBound live | portPending live | allocated live =>
    simp [live] at deleted

end StatusWrite

theorem run_statusWrite (later : Timestamp) (write : StatusWrite now s o new)
    (here : s.find k o.key = some o) :
    (s.failNextStatusWrite = true ∧ s.run later (writeStatus new) =
        (.error (.store (.conflict k o.displayName)), { s with failNextStatusWrite := false })) ∨
      s.failNextStatusWrite = false ∧ (s.run later (writeStatus new)).1 = .ok () ∧
        (s.run later (writeStatus new)).2.failNextStatusWrite = false ∧
        s.Puts (s.run later (writeStatus new)).2 k o.key (new.withVersion s.nextVersion).kept := by
  have only := write.only
  cases armed : s.failNextStatusWrite with
  | true =>
    have name : new.displayName = o.displayName := by
      rw [only]
      rfl
    rw [run_writeStatus_armed later armed, name]
    exact Or.inl ⟨rfl, rfl⟩
  | false =>
    have key : new.key = o.key := by rw [only, Object.key, Object.key, Object.ref, Object.ref]
    have version : o.metadata.resourceVersion = new.metadata.resourceVersion := by rw [only]
    have written : o.withStatusOf new s.nextVersion = new.withVersion s.nextVersion := by
      rw [only, Object.withStatusOf]
    rw [← key] at here
    obtain ⟨ok, puts⟩ := run_writeStatus later armed here version
    rw [key, written] at puts
    refine Or.inr ⟨rfl, ok, ?_, puts⟩
    rw [writeStatus, run_commit]
    exact (Store.updateStatus_puts armed here version).1

/-- One stroke of an undisturbed pass, by what becomes of the stored objects. -/
inductive Stroke (now : Timestamp) (claimPrefix : String) (s s' : Store) : Prop where
  | idle (same : s.Unchanged s')
  | status {k : Kind} {o new : Object k} (here : s.find k o.key = some o)
      (write : StatusWrite now s o new)
      (puts : s.Puts s' k o.key (new.withVersion s.nextVersion).kept)
  | release {k : Kind} {o : Object k} (here : s.find k o.key = some o)
      (deleted : o.isBeingDeleted = true) (marked : o.phase = some .deleting)
      (held : o.isProtected = true) (clear : ¬ s.HasDependent claimPrefix o)
      (puts : s.Puts s' k o.key (o.released.withVersion s.nextVersion).kept)
  | create {c : PortClaim} {ns uid : String} {i : Identity}
      (here : s.find .portClaim c.key = some c) (live : c.isBeingDeleted = false)
      (within : c.metadata.namespace_ = some ns) (identity : c.metadata.uid = some uid)
      (free : s.find .port (portNameForClaim uid) = none)
      (puts : s.Puts s' .port (portNameForClaim uid) (some ((c.backingPort ns uid).identified i)))
  | reclaim {p : Port} {r : ClaimReference} {gone : Option Port}
      (here : s.find .port p.key = some p) (live : p.isBeingDeleted = false)
      (settled : p.phase = some .settled) (owner : p.spec.claimRef = some r)
      (orphan : s.hasClaim r = false)
      (goes : gone = none ∨ ∃ at_ version, gone = some (p.marked at_ version))
      (puts : s.Puts s' .port p.key gone)

abbrev Strokes (now : Timestamp) (claimPrefix : String) : Store → Store → Prop :=
  Relation.ReflTransGen (Stroke now claimPrefix)

theorem strokes_ensureBackingPort {c : PortClaim} {ns uid : String} {next : String → Pass Outcome}
    (later : Timestamp) (here : s.find .portClaim c.key = some c)
    (live : c.isBeingDeleted = false) (within : c.metadata.namespace_ = some ns)
    (identity : c.metadata.uid = some uid)
    (rest : ∀ t : Store, t.find .portClaim c.key = some c →
      Strokes now claimPrefix t (t.run later (next (portNameForClaim uid))).2) :
    Strokes now claimPrefix s (s.run later (ensureBackingPort c next)).2 := by
  cases stored : s.find .port (portNameForClaim uid) with
  | none =>
    obtain ⟨t, goes, _, puts⟩ := run_ensureBackingPort_free later next within identity stored
    rw [goes]
    refine .head (.create here live within identity stored puts) (rest t ?_)
    rwa [puts.find_other (by decide)]
  | some p =>
    rw [run_ensureBackingPort_taken later next within identity stored]
    have same := Store.unchanged_countWrite s
    refine .head (.idle same) (rest _ ?_)
    rwa [same.find]

theorem strokes_statusWrite (later : Timestamp) (write : StatusWrite now s o new)
    (here : s.find k o.key = some o) :
    Strokes now claimPrefix s (s.run later (writeStatus new)).2 := by
  apply Relation.ReflTransGen.single
  rcases run_statusWrite later write here with ⟨_, fails⟩ | ⟨_, _, _, puts⟩
  · rw [fails]
    exact .idle ⟨fun k => by cases k <;> rfl, rfl, rfl⟩
  · exact .status here write puts

theorem strokes_due {p : Pass Outcome} (later : Timestamp) (here : s.find k o.key = some o)
    (placed : o.PlacedAt o.key) (due : Due now claimPrefix s o p) :
    Strokes now claimPrefix s (s.run later p).2 := by
  cases due with
  | idle => exact .refl
  | status write => exact strokes_statusWrite later write here
  | release deleted marked held clear =>
    exact .single (.release here deleted marked held clear (run_release later here).2.2)
  | bind live waiting within identity =>
    apply strokes_ensureBackingPort later here live within identity
    exact fun t here' => strokes_statusWrite later (.claimBound live waiting identity) here'
  | restore live _ _ _ within identity =>
    exact strokes_ensureBackingPort later here live within identity fun _ _ => .refl
  | @reclaim p r live settled owner orphan =>
    rw [← placed.displayName] at here
    obtain ⟨_, _, change⟩ := Store.deletePort_puts later here live
    rw [placed.displayName] at here change
    rw [run_commit]
    apply Relation.ReflTransGen.single
    rcases change with ⟨_, puts⟩ | ⟨_, puts⟩
    · exact .reclaim here live settled owner orphan (Or.inl rfl) puts
    · exact .reclaim here live settled owner orphan (Or.inr ⟨_, _, rfl⟩) puts

/-- What a whole pass does, whatever it is over. -/
theorem strokes_pass (placed : s.Placed) (now later : Timestamp) (claimPrefix : String) (k : Kind)
    (ref : ObjectRef) :
    Strokes now claimPrefix s (s.run later (pass now claimPrefix k ref)).2 := by
  by_cases absent : k = .pod ∨ s.find k (subject k ref).key = none
  · rw [run_pass_absent now later claimPrefix absent]
  · obtain ⟨controlled, stored⟩ := not_or.mp absent
    obtain ⟨o, found⟩ := Option.ne_none_iff_exists'.mp stored
    have stands := placed k _ o controlled found
    obtain ⟨p, due, comes⟩ := comes_to_due now later claimPrefix controlled found
    rw [comes]
    rw [← stands.keyed] at found stands
    exact strokes_due later found stands due

end Reconcile

namespace Store.Placed

open Reconcile (Stroke Strokes)

variable {now : Timestamp} {claimPrefix : String} {s s' : Store} {k : Kind} {key : String}

theorem of_entries (h : ∀ k ∈ Kind.reconciled, ∀ e ∈ (s.table k).entries, e.2.PlacedAt e.1) :
    s.Placed := by
  intro k key o controlled found
  have among : k ∈ Kind.reconciled := by cases k <;> first | decide | contradiction
  exact h k among (key, o) (SortedMap.find_eq_some_iff.mp found)

theorem of_unchanged (h : s.Placed) (same : s.Unchanged s') : s'.Placed :=
  fun k key o controlled found => h k key o controlled ((same.find k key).symm.trans found)

theorem of_puts (h : s.Placed) {new : Option (Object k)} (puts : s.Puts s' k key new)
    (heir : ∀ o, new = some o → k ≠ .pod → o.PlacedAt key) : s'.Placed := by
  intro k' key' o controlled found
  exact puts.entries (P := fun k key o => k ≠ .pod → o.PlacedAt key) heir
    (fun k key o found controlled => h k key o controlled found) k' key' o found controlled

theorem of_next (h : s.Placed) {old : Object k} {new : Option (Object k)}
    (puts : s.Puts s' k key new) (found : s.find k key = some old)
    (succeeds : ∀ o, new = some o → o.Succeeds old) : s'.Placed :=
  h.of_puts puts fun o eq controlled => (h k key old controlled found).next (succeeds o eq)

theorem stroke (h : s.Placed) (stroke : Stroke now claimPrefix s s') : s'.Placed := by
  have kept : ∀ {k : Kind} {old new o : Object k}, new.kept = some o → new.Succeeds old →
      o.Succeeds old := by
    intro k old new o eq succeeds
    rwa [Object.eq_of_kept eq]
  cases stroke with
  | idle same => exact h.of_unchanged same
  | status here write puts =>
    exact h.of_next puts here fun _ eq => kept eq (write.succeeds _)
  | @release k o here _ _ _ _ puts =>
    exact h.of_next puts here fun _ eq => kept eq (o.released_succeeds _)
  | create _ _ _ _ _ puts =>
    apply h.of_puts puts
    intro o eq _
    cases eq
    exact ⟨rfl, nofun, iff_of_true rfl rfl⟩
  | @reclaim p _ _ here _ _ _ _ goes puts =>
    apply h.of_next puts here
    intro o eq
    subst eq
    obtain ⟨_, _, is⟩ := goes.resolve_left nofun
    cases is
    exact p.marked_succeeds ..

theorem strokes (h : s.Placed) (strokes : Strokes now claimPrefix s s') : s'.Placed := by
  induction strokes with
  | refl => exact h
  | tail _ last ih => exact ih.stroke last

end Store.Placed
end HostPorts
