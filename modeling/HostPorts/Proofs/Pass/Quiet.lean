import HostPorts.Proofs.Object.Lifecycle
import HostPorts.Proofs.Pass.Strokes

/-!
Passes that change nothing. Whatever is due for an object alters it or makes it a port, unless there
is nothing to do or nothing that can be done (`Due.idle_of_same`). So a pass that succeeds and
leaves all objects as they were does not even try to write (`quiet_pass_writes_nothing`). That needs
what runs keep: versions are never given out twice, and a settled claim records no other port than
its own, as the creation of a port that is there already would count as a write.
-/
namespace HostPorts

namespace Store

variable {s s' : Store} {k : Kind} {key : String}

theorem Puts.alters {old : Object k} {new : Option (Object k)} (puts : s.Puts s' k key new)
    (orderly : s.Orderly) (found : s.find k key = some old) : ¬ s.SameObjects s' := by
  intro same
  have still : new = some old := by rw [← puts.here, same.find, found]
  obtain ⟨n, le, carries⟩ := orderly.versioned k key old found
  have fresh := (puts.fresh old still).1
  rw [carries, nextVersion] at fresh
  have := versionOf_injective (Option.some.inj fresh)
  omega

/-- Only a port that stands under its shown name can be deleted by it. -/
theorem found_of_deletePort_ok (now : Timestamp) {p : Port} (orderly : s.Orderly)
    (found : s.find .port key = some p) (ok : (s.deletePort now p).1 = .ok ()) :
    s.find .port p.displayName = some p := by
  obtain ⟨n, _, identity⟩ := orderly.identified .port key p found
  cases there : s.find .port p.displayName with
  | none =>
    have there' : s.ports.find? p.displayName = none := there
    simp [deletePort, delete, Table.delete, countWrite, table, there'] at ok
  | some q =>
    have there' : s.ports.find? p.displayName = some q := there
    cases holds : Precondition.holds ⟨p.metadata.uid, p.metadata.resourceVersion⟩ q with
    | false =>
      simp [deletePort, delete, Table.delete, countWrite, table, there', holds] at ok
    | true =>
      have uid : q.metadata.uid = p.metadata.uid := by
        rw [identity]
        simp only [Precondition.holds, identity, Option.all_some, Bool.and_eq_true,
          decide_eq_true_eq] at holds
        exact holds.1
      have same := orderly.distinct .port key p _ q found there uid.symm
      rw [← there, ← same, found]

end Store

namespace Reconcile

variable {now later : Timestamp} {claimPrefix : String} {s : Store} {k : Kind} {o : Object k}
  {rest : Pass Outcome}

theorem run_writeStatus_alters {new : Object k} (orderly : s.Orderly)
    (here : s.find k o.key = some o) (write : StatusWrite now s o new)
    (effective : (s.run later (writeStatus new)).1 = .ok () ∨ s.failNextStatusWrite = false) :
    ¬ s.SameObjects (s.run later (writeStatus new)).2 := by
  rcases run_statusWrite later write here with ⟨armed, fails⟩ | ⟨_, _, _, puts⟩
  · rw [fails, armed] at effective
    rcases effective with ok | unarmed <;> contradiction
  · exact puts.alters orderly here

theorem run_bindClaim_alters {c : PortClaim} {ns uid : String}
    (here : s.find .portClaim c.key = some c) (live : c.isBeingDeleted = false)
    (waiting : c.phase = some .pending) (within : c.metadata.namespace_ = some ns)
    (identity : c.metadata.uid = some uid)
    (effective : (s.run later (bindClaim c)).1 = .ok () ∨ s.failNextStatusWrite = false) :
    ¬ s.SameObjects (s.run later (bindClaim c)).2 := by
  intro same
  have still := same.find .portClaim c.key
  obtain ⟨t, goes, _, claims, armed⟩ := run_ensureBackingPort s later
    (fun name => writeStatus (k := .portClaim) { c with status := some ⟨some .settled, some name⟩ })
    within identity
  rw [bindClaim, goes] at effective still
  have write : StatusWrite later t c _ := .claimBound live waiting identity
  rcases run_statusWrite later write ((claims c.key).trans here) with
    ⟨armed', fails⟩ | ⟨_, _, _, puts⟩
  · rw [fails, ← armed, armed'] at effective
    rcases effective with ok | unarmed <;> contradiction
  · rw [puts.here, here] at still
    have phase : c.phase = some .settled := congrArg Object.phase (Object.eq_of_kept still)
    exact absurd (waiting.symm.trans phase) nofun

/-- What is due for an object alters it or makes it a port, unless it is to rest. -/
theorem Due.idle_of_same (proper : s.Proper) (here : s.find k o.key = some o)
    (due : Due now claimPrefix s o rest)
    (effective : (s.run later rest).1 = .ok () ∨
      s.failNextStatusWrite = false ∧ o.PlacedAt o.key)
    (same : s.SameObjects (s.run later rest).2) :
    ∃ outcome, rest = .done outcome ∧ Idle claimPrefix s o outcome := by
  have effective' : (s.run later rest).1 = .ok () ∨ s.failNextStatusWrite = false :=
    effective.imp_right And.left
  cases due with
  | idle idle => exact ⟨_, rfl, idle⟩
  | status write =>
    exact absurd same (run_writeStatus_alters proper.orderly here write effective')
  | release deleted marked held clear =>
    exact absurd same ((run_release later here).2.2.alters proper.orderly here)
  | bind live waiting within identity =>
    exact absurd same (run_bindClaim_alters here live waiting within identity effective')
  | @restore c ns uid name live settled backing absent within identity =>
    -- the recorded name is that of the claim's own port
    have recorded := (proper.proper .portClaim _ c here).recorded
    obtain ⟨bound, records⟩ := Option.ne_none_iff_exists'.mp (recorded.settled settled)
    obtain ⟨uid', identity', own⟩ := recorded.own bound records
    cases identity.symm.trans identity'
    rw [PortClaim.backingPortName, records, own] at backing
    cases backing
    obtain ⟨t, goes, _, puts⟩ := run_ensureBackingPort_free later (fun _ => finish) within identity
      absent
    rw [goes] at same
    have still : t.find .port (portNameForClaim uid) = s.find .port (portNameForClaim uid) :=
      same.find .port (portNameForClaim uid)
    rw [puts.here, absent] at still
    contradiction
  | @reclaim p r live settled owner orphan =>
    have shown : s.find .port p.displayName = some p := by
      rcases effective with ok | ⟨_, placed⟩
      · apply Store.found_of_deletePort_ok later proper.orderly here
        simp only [commit, ask, Store.run, Pass.run, Store.answer] at ok
        cases reply : (s.deletePort later p).1 with
        | ok _ => rfl
        | error e => simp [reply, Pass.run] at ok
      · rwa [placed.displayName]
    obtain ⟨_, _, ⟨_, puts⟩ | ⟨_, puts⟩⟩ := Store.deletePort_puts later shown live
    · rw [run_commit] at same
      exact absurd same (puts.alters proper.orderly shown)
    · rw [run_commit] at same
      exact absurd same (puts.alters proper.orderly shown)

end Reconcile

theorem Store.proper_of_seriallyReachable {claimPrefix : String} {s : Store}
    (reachable : SeriallyReachable (UserStep UserAct.CreatesBlank) claimPrefix s) : s.Proper :=
  Discipline.inv_of_userSteps (Course.lives_upheld (fun _ _ => False) claimPrefix) .empty
    (fun valid ok => Proper.perform valid ok) reachable

/-- After whatever users and passes have done, a pass that succeeds without changing an object has
not tried to write either. -/
theorem quiet_pass_writes_nothing {claimPrefix : String} {s : Store}
    (reachable : SeriallyReachable (UserStep UserAct.CreatesBlank) claimPrefix s)
    (now later : Timestamp) (k : Kind) (ref : ObjectRef)
    (ok : (s.run later (Reconcile.pass now claimPrefix k ref)).1 = .ok ())
    (same : s.SameObjects (s.run later (Reconcile.pass now claimPrefix k ref)).2) :
    (s.run later (Reconcile.pass now claimPrefix k ref)).2.writes = s.writes := by
  have proper := Store.proper_of_seriallyReachable reachable
  by_cases absent : k = .pod ∨ s.find k (Reconcile.subject k ref).key = none
  · rw [Reconcile.run_pass_absent now later claimPrefix absent]
  · obtain ⟨controlled, stored⟩ := not_or.mp absent
    obtain ⟨o, found⟩ := Option.ne_none_iff_exists'.mp stored
    obtain ⟨rest, due, comes⟩ := Reconcile.comes_to_due now later claimPrefix controlled found
    rw [comes] at ok same ⊢
    rw [← proper.orderly.keyed k _ o found] at found
    obtain ⟨_, rfl, _⟩ := due.idle_of_same proper found (Or.inl ok) same
    rfl

open Cluster (noon)

def claimServed : List SerialMove :=
  [.act (.insert .portClass ⟨{ name := some "c" }, ⟨⟩, none⟩ noon),
    .act (.insert .portPool ⟨{ name := some "m" }, ⟨"c", 5000, 5009, true⟩, none⟩ noon)] ++
  List.replicate 3 (.pass noon .portPool ⟨none, "m"⟩) ++
  [.act (.insert .portClaim ⟨{ name := some "web", namespace_ := some "t" }, ⟨"c"⟩, none⟩ noon),
    .act (.insert .portPool ⟨{ name := some "n" }, ⟨"c", 5009, 5019, true⟩, none⟩ noon)] ++
  List.replicate 3 (.pass noon .portPool ⟨none, "n"⟩) ++
  List.replicate 2 (.pass noon .portClaim ⟨some "t", "web"⟩) ++
  List.replicate 2 (.pass noon .port ⟨none, portNameForClaim (Store.uidOf 3)⟩) ++
  [.act .failNextStatusWrite]

theorem quiet_pass_writes_nothing_served :
    let s := claimServed.foldl (SerialMove.play "claims") {}
    let s' := (s.run noon (Reconcile.pass noon "claims" .portClaim ⟨some "t", "web"⟩)).2
    (s.run noon (Reconcile.pass noon "claims" .portClaim ⟨some "t", "web"⟩)).1 = .ok () ∧
      s.SameObjects s' ∧ s.writes = 11 ∧ s'.writes = 11 := by
  intro s s'
  have reachable : SeriallyReachable (UserStep UserAct.CreatesBlank) "claims" s :=
    SerialMove.reachable claimServed .refl (fun _ a ok => .user a ok) (by decide +kernel)
  have ok : (s.run noon (Reconcile.pass noon "claims" .portClaim ⟨some "t", "web"⟩)).1 =
      .ok () := rfl
  have same : s.SameObjects s' := by decide +kernel
  have writes : s.writes = 11 := by decide +kernel
  refine ⟨ok, same, writes, ?_⟩
  rw [← writes]
  exact quiet_pass_writes_nothing reachable noon noon .portClaim _ ok same

end HostPorts
