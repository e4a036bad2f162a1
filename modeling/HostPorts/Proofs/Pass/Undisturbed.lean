import HostPorts.Proofs.Pass.Reads
import HostPorts.Store.Scripted

/-!
Passes that run to their end without interruption, piece by piece.
-/
namespace HostPorts

theorem ScriptedStore.run_unscripted {α : Type} (now : Timestamp) (rest : Pass α) (s : Store) :
    run now rest { store := s } = ((s.run now rest).1, { store := (s.run now rest).2 }) := by
  induction rest generalizing s with
  | done a => rfl
  | call r next ih => exact ih _ _
  | alone rest ih => exact ih s

namespace Store

variable {s : Store}

theorem updateStatus_ok {k : Kind} {o old : Object k} (unarmed : s.failNextStatusWrite = false)
    (found : s.find k o.key = some old)
    (same : old.metadata.resourceVersion = o.metadata.resourceVersion) :
    ∃ written, (s.updateStatus o).1 = .ok written := by
  rw [← (unchanged_countWrite s).find] at found
  change (s.countWrite.table k).find? o.key = some old at found
  simp only [updateStatus, update, Table.update, unarmed, found, same, Bool.false_eq_true, if_false,
    ne_eq, not_true_eq_false]
  exact ⟨_, rfl⟩

theorem updateFinalizers_ok {k : Kind} {o old : Object k} (found : s.find k o.key = some old)
    (same : old.metadata.resourceVersion = o.metadata.resourceVersion) :
    ∃ written, (s.updateFinalizers o).1 = .ok written := by
  rw [← (unchanged_countWrite s).find] at found
  change (s.countWrite.table k).find? o.key = some old at found
  simp only [updateFinalizers, update, Table.update, found, same, ne_eq, not_true_eq_false,
    if_false]
  exact ⟨_, rfl⟩

theorem deletePort_puts (now : Timestamp) {p : Port} (found : s.find .port p.displayName = some p)
    (live : p.isBeingDeleted = false) :
    (s.deletePort now p).1 = .ok () ∧
      (s.deletePort now p).2.failNextStatusWrite = s.failNextStatusWrite ∧
      ((p.metadata.finalizerList = [] ∧
          s.Puts (s.deletePort now p).2 .port p.displayName none) ∨
        (p.metadata.finalizerList ≠ [] ∧
          s.Puts (s.deletePort now p).2 .port p.displayName
            (some (p.marked now s.nextVersion)))) := by
  have holds : Precondition.holds ⟨p.metadata.uid, p.metadata.resourceVersion⟩ p = true := by
    cases uid : p.metadata.uid <;> cases version : p.metadata.resourceVersion <;>
      simp [Precondition.holds, uid, version]
  have here := found
  rw [← (unchanged_countWrite s).find] at here
  change (s.countWrite.table .port).find? p.displayName = some p at here
  by_cases empty : p.metadata.finalizerList = []
  · have goes : s.deletePort now p = (.ok (), s.countWrite.withTable .port
        ((s.countWrite.table .port).erase p.displayName)) := by
      simp only [deletePort, delete, Table.delete, here, holds, empty, Bool.not_true,
        Bool.false_eq_true, if_false, List.isEmpty_nil, if_true]
    rw [goes]
    refine ⟨rfl, rfl, Or.inl ⟨empty, (unchanged_countWrite s).puts ?_⟩⟩
    exact puts_erase rfl (Nat.le_refl _) (Nat.le_refl _)
  · have held : p.metadata.finalizerList.isEmpty = false := by simpa using empty
    have stays : s.deletePort now p = (.ok (), { s.countWrite.withTable .port
        ((s.countWrite.table .port).insert p.displayName (p.marked now s.nextVersion)) with
        version := s.version + 1 }) := by
      simp only [deletePort, delete, Table.delete, here, holds, held, live, Bool.not_true,
        Bool.false_eq_true, if_false]
      rfl
    rw [stays]
    refine ⟨rfl, rfl, Or.inr ⟨empty, (unchanged_countWrite s).puts (puts_insert ?_ rfl ?_ rfl)⟩⟩
    · funext k
      cases k <;> rfl
    · exact Nat.le_refl _

theorem createPort_free (now : Timestamp) (port : Port) (free : s.find .port port.key = none) :
    ∃ t, answer now (.createPort port) s = (.ok (port.identified (s.nextIdentity now)), t) ∧
      t.failNextStatusWrite = s.failNextStatusWrite ∧
      s.Puts t .port port.key (some (port.identified (s.nextIdentity now))) := by
  have free' : s.ports.find? port.key = none := free
  refine ⟨{ s.countWrite with
    ports := s.ports.insert port.key (port.identified (s.nextIdentity now))
    version := s.version + 1
    created := s.created + 1 }, ?_, rfl, ?_⟩
  · simp only [answer, insert, Table.create, countWrite, table, free', Option.isSome_none,
      Bool.false_eq_true, if_false]
    rfl
  · refine (unchanged_countWrite s).puts (puts_insert ?_ rfl (Nat.le_succ _) rfl)
    funext k
    cases k <;> rfl

theorem createPort_taken (now : Timestamp) (port : Port) {taken : Port}
    (found : s.find .port port.key = some taken) :
    answer now (.createPort port) s = (.error (.alreadyExists .port port.key), s.countWrite) := by
  have found' : s.ports.find? port.key = some taken := found
  simp only [answer, insert, Table.create, countWrite, table, found', Option.isSome_some, if_true]

end Store

namespace Reconcile

variable {s : Store} {k : Kind} {ref : ObjectRef} {now : Timestamp}

theorem run_find {o : Object k} {next : Option (Object k) → Pass Outcome}
    (found : s.find k ref.key = some o) :
    s.run now (find k ref next) = s.run now (next (some o)) := (reads_find found).run_eq

theorem run_find_absent {next : Option (Object k) → Pass Outcome}
    (absent : s.find k ref.key = none) :
    s.run now (find k ref next) = s.run now (next none) := (reads_find_absent absent).run_eq

theorem run_ask_get {o : Object k} {next : Object k → Pass Outcome}
    (found : s.find k ref.key = some o) :
    s.run now (ask (.get k ref) next) = s.run now (next o) := (reads_ask_get found).run_eq

theorem run_ask_get_absent {next : Object k → Pass Outcome} (absent : s.find k ref.key = none) :
    s.run now (ask (.get k ref) next) = (.error (.store (.notFound k ref.key)), s) :=
  (reads_ask_get_absent absent).run_eq

theorem run_commit (r : Request) : (s.run now (commit r)).2 = (s.answer now r).2 := by
  simp only [commit, ask, Store.run, Pass.run]
  cases (Store.answer now r s).1 <;> rfl

theorem run_commit_ok {r : Request} {a : r.Answer} (ok : (s.answer now r).1 = .ok a) :
    (s.run now (commit r)).1 = .ok () := by
  simp only [commit, ask, Store.run, Pass.run, ok]
  rfl

theorem run_writeStatus (now : Timestamp) {o old : Object k}
    (unarmed : s.failNextStatusWrite = false)
    (found : s.find k o.key = some old)
    (same : old.metadata.resourceVersion = o.metadata.resourceVersion) :
    (s.run now (writeStatus o)).1 = .ok () ∧
      s.Puts (s.run now (writeStatus o)).2 k o.key (old.withStatusOf o s.nextVersion).kept := by
  obtain ⟨written, ok⟩ := Store.updateStatus_ok unarmed found same
  refine ⟨run_commit_ok (r := .updateStatus k o) ok, ?_⟩
  rw [writeStatus, run_commit]
  exact (Store.updateStatus_puts unarmed found same).2

theorem run_writeStatus_armed (now : Timestamp) {o : Object k}
    (armed : s.failNextStatusWrite = true) :
    s.run now (writeStatus o) =
      (.error (.store (.conflict k o.displayName)), { s with failNextStatusWrite := false }) := by
  simp only [writeStatus, commit, ask, Store.run, Pass.run, Store.answer, Store.updateStatus, armed,
    if_true]

theorem run_release (now : Timestamp) {o : Object k} (found : s.find k o.key = some o) :
    (s.run now (release o)).1 = .ok () ∧
      (s.run now (release o)).2.failNextStatusWrite = s.failNextStatusWrite ∧
      s.Puts (s.run now (release o)).2 k o.key (o.released.withVersion s.nextVersion).kept := by
  have key : o.released.key = o.key := by
    rw [o.released_only, Object.key, Object.key, Object.ref, Object.ref]
  have version : o.metadata.resourceVersion = o.released.metadata.resourceVersion := by
    rw [o.released_only]
  have written : o.withFinalizersOf o.released s.nextVersion =
      o.released.withVersion s.nextVersion := by
    rw [o.released_only, Object.withFinalizersOf]
  rw [← key] at found
  obtain ⟨_, ok⟩ := Store.updateFinalizers_ok found version
  obtain ⟨armed, puts⟩ := Store.updateFinalizers_puts found version
  rw [key, written] at puts
  refine ⟨run_commit_ok (r := .updateFinalizers k o.released) ok, ?_, ?_⟩
  · rw [release, run_commit]
    exact armed
  · rw [release, run_commit]
    exact puts

theorem run_ensureBackingPort_free (now : Timestamp) {c : PortClaim} {ns uid : String}
    (next : String → Pass Outcome) (within : c.metadata.namespace_ = some ns)
    (identity : c.metadata.uid = some uid) (free : s.find .port (portNameForClaim uid) = none) :
    ∃ t : Store, s.run now (ensureBackingPort c next) = t.run now (next (portNameForClaim uid)) ∧
      t.failNextStatusWrite = s.failNextStatusWrite ∧
      s.Puts t .port (portNameForClaim uid)
        (some ((c.backingPort ns uid).identified (s.nextIdentity now))) := by
  obtain ⟨t, creates, armed, puts⟩ := Store.createPort_free now (c.backingPort ns uid) free
  refine ⟨t, ?_, armed, puts⟩
  simp only [ensureBackingPort, within, identity, Store.run, Pass.run, creates]

theorem run_ensureBackingPort_taken (now : Timestamp) {c : PortClaim} {p : Port} {ns uid : String}
    (next : String → Pass Outcome) (within : c.metadata.namespace_ = some ns)
    (identity : c.metadata.uid = some uid)
    (stored : s.find .port (portNameForClaim uid) = some p) :
    s.run now (ensureBackingPort c next) =
      s.countWrite.run now (next (portNameForClaim uid)) := by
  have taken := Store.createPort_taken now (c.backingPort ns uid) stored
  simp only [ensureBackingPort, within, identity, Store.run, Pass.run, taken,
    StoreError.isAlreadyExists, if_true]

theorem run_ensureBackingPort (s : Store) (now : Timestamp) {c : PortClaim} {ns uid : String}
    (next : String → Pass Outcome) (within : c.metadata.namespace_ = some ns)
    (identity : c.metadata.uid = some uid) :
    ∃ t : Store, s.run now (ensureBackingPort c next) = t.run now (next (portNameForClaim uid)) ∧
      (∃ p, t.find .port (portNameForClaim uid) = some p) ∧
      (∀ key, t.find .portClaim key = s.find .portClaim key) ∧
      t.failNextStatusWrite = s.failNextStatusWrite := by
  cases found : s.find .port (portNameForClaim uid) with
  | none =>
    obtain ⟨t, goes, armed, puts⟩ := run_ensureBackingPort_free now next within identity found
    exact ⟨t, goes, ⟨_, puts.here⟩, puts.find_other (by decide), armed⟩
  | some p =>
    have same := Store.unchanged_countWrite s
    exact ⟨s.countWrite, run_ensureBackingPort_taken now next within identity found,
      ⟨p, (same.find ..).trans found⟩, same.find .portClaim, rfl⟩

end Reconcile
end HostPorts
