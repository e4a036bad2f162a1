import HostPorts.Proofs.Store.Effect
import HostPorts.Reconcile.Reconciler

/-!
What a pass asks for once it has read its object, whatever it is told after that: by any store, a
real server, or nobody at all. Besides reading and making or deleting ports it writes at most the
status of that very object, keeping what the old one has recorded, or the object without its token.
-/
namespace HostPorts

namespace Pass

variable {α : Type} {k : Kind}

/-- The request may be among those of the pass, depending on the replies. -/
def MayAsk (r : Request) : Pass α → Prop
  | .done _ => False
  | .call r' next => r = r' ∨ ∃ reply, (next reply).MayAsk r
  | .alone rest => rest.MayAsk r

inductive Finds (o : Object k) : Pass α → Pass α → Prop where
  | found {ref : ObjectRef} {next : (Request.get k ref).Reply → Pass α} :
      Finds o (.call (.get k ref) next) (next (.ok o))

end Pass

def Kind.Covers : (k : Kind) → k.Status → k.Status → Prop
  | .portClass, old, new => old.phase ≠ none → new.phase ≠ none
  | .portPool, old, new => (old.phase ≠ none → new.phase ≠ none) ∧
    (old.conditions ≠ [] → new.conditions ≠ [])
  | .portClaim, old, new => (old.phase ≠ none → new.phase ≠ none) ∧
    (old.boundPortName ≠ none → new.boundPortName ≠ none)
  | .port, old, new => (old.phase ≠ none → new.phase ≠ none) ∧
    (old.poolName ≠ none → new.poolName ≠ none)
  | .pod, _, _ => True

/-- The same object with a new status, which covers the old one unless that is in no phase. -/
def Object.Restated {k : Kind} (o new : Object k) : Prop :=
  ∃ status, new = { o with status := some status } ∧
    (o.phase ≠ none → ∀ old, o.status = some old → k.Covers old status)

theorem Object.restated_withPhase {k : Kind} (controlled : k ≠ .pod) (o : Object k)
    (phase : Phase) : o.Restated (o.withPhase phase) := by
  cases k with
  | portClass =>
    refine ⟨_, rfl, ?_⟩
    intro _ old _
    simp [Kind.Covers]
  | portPool | portClaim | port =>
    refine ⟨_, rfl, ?_⟩
    intro _ old is
    simp [is, Kind.Covers]
  | pod => contradiction

theorem Conditions.set_ne_nil (now : Timestamp) (conditions : Conditions) (new : Condition) :
    (conditions.set now new).2 ≠ [] := by
  cases conditions with
  | nil => simp [set]
  | cons held rest =>
    unfold set
    split <;> simp

theorem PortPool.restated_withOverlap (now : Timestamp) (p : PortPool) (status : ConditionStatus)
    (reason message : String) : p.Restated (p.withOverlap now status reason message) := by
  refine ⟨_, rfl, ?_⟩
  intro _ old is
  refine ⟨?_, fun _ => Conditions.set_ne_nil _ _ _⟩
  simp [is]

theorem PortPool.restated_checked (now : Timestamp) (p : PortPool) (pools : List PortPool) :
    p.Restated (p.checked now pools) := by
  unfold checked
  split
  · exact p.restated_withOverlap ..
  · obtain ⟨first, is, covers⟩ :=
      p.restated_withOverlap now .true_ "NoOverlap" "range does not overlap any other pool"
    rw [is]
    refine ⟨_, rfl, ?_⟩
    intro phased old before
    exact ⟨fun _ => nofun, (covers phased old before).2⟩

namespace Reconcile

variable {k : Kind} {o : Object k} {r : Request}

theorem mayAsk_ask {q : Request} {next : q.Answer → Pass Outcome} :
    (ask q next).MayAsk r ↔ r = q ∨ ∃ a, (next a).MayAsk r := by
  unfold ask
  simp only [Pass.MayAsk]
  refine or_congr Iff.rfl ⟨?_, ?_⟩
  · rintro ⟨reply, asks⟩
    cases reply with
    | ok a => exact ⟨a, asks⟩
    | error e => exact asks.elim
  · rintro ⟨a, asks⟩
    exact ⟨.ok a, asks⟩

theorem mayAsk_find {ref : ObjectRef} {next : Option (Object k) → Pass Outcome}
    (asks : (find k ref next).MayAsk r) : r = .get k ref ∨ ∃ found, (next found).MayAsk r := by
  rcases asks with first | ⟨reply, later⟩
  · exact Or.inl first
  · right
    cases reply with
    | ok o => exact ⟨some o, later⟩
    | error e =>
      simp only at later
      split at later
      · exact ⟨none, later⟩
      · exact later.elim

theorem mayAsk_commit {q : Request} : (commit q).MayAsk r ↔ r = q := by
  rw [commit, mayAsk_ask]
  exact or_iff_left fun ⟨_, asks⟩ => asks

theorem mayAsk_checkClaim {c : ClaimReference} {next : Bool → Pass Outcome}
    (asks : (checkClaim c next).MayAsk r) :
    r = .get .portClaim ⟨some c.namespace_, c.name⟩ ∨ ∃ lives, (next lives).MayAsk r := by
  rcases mayAsk_find asks with first | ⟨found, later⟩
  · exact Or.inl first
  · exact Or.inr ⟨_, later⟩

theorem mayAsk_ensureBackingPort {c : PortClaim} {next : String → Pass Outcome}
    (asks : (ensureBackingPort c next).MayAsk r) :
    (∃ p, r = .createPort p) ∨
      ∃ uid, c.metadata.uid = some uid ∧ (next (portNameForClaim uid)).MayAsk r := by
  unfold ensureBackingPort at asks
  split at asks
  · exact asks.elim
  · exact asks.elim
  next ns uid _ identity =>
    rcases asks with first | ⟨reply, later⟩
    · exact Or.inl ⟨_, first⟩
    · right
      cases reply with
      | ok p => exact ⟨uid, identity, later⟩
      | error e =>
        simp only at later
        split at later
        · exact ⟨uid, identity, later⟩
        · exact later.elim

/-- What a pass that has read the object may ask for. -/
inductive AsksFor (o : Object k) : Request → Prop where
  | status {new : Object k} (restated : o.Restated new) : AsksFor o (.updateStatus k new)
  | release (held : o.isProtected = true) : AsksFor o (.updateFinalizers k o.released)
  | create (p : Port) : AsksFor o (.createPort p)
  | delete (p : Port) : AsksFor o (.deletePort p)
  | read {r : Request} (read : r.isRead = true) : AsksFor o r

theorem asksFor_writeStatus {new : Object k} (restated : o.Restated new)
    (asks : (writeStatus new).MayAsk r) : AsksFor o r := by
  cases mayAsk_commit.mp asks
  exact .status restated

theorem asksFor_release (held : o.isProtected = true) (asks : (release o).MayAsk r) :
    AsksFor o r := by
  cases mayAsk_commit.mp asks
  exact .release held

theorem asksFor_finalize {check : Pass Outcome} (controlled : k ≠ .pod)
    (checks : o.isProtected = true → check.MayAsk r → AsksFor o r)
    (asks : Pass.MayAsk r
      (match DeletionStep.plan (o.phase = some .deleting) o.isProtected with
        | .markDeleting => writeStatus (o.withPhase .deleting)
        | .converged => finish
        | .checkDependents => check)) : AsksFor o r := by
  split at asks
  · exact asksFor_writeStatus (o.restated_withPhase controlled _) asks
  · exact asks.elim
  next plan =>
    refine checks ?_ asks
    cases held : o.isProtected with
    | true => rfl
    | false =>
      rw [held] at plan
      unfold DeletionStep.plan at plan
      split at plan <;> contradiction

theorem asksFor_portClass {name : String} {c : PortClass} {rest : Pass Outcome}
    (finds : (portClass name).Finds c rest) (asks : rest.MayAsk r) : AsksFor c r := by
  cases finds
  simp only at asks
  split at asks
  · apply asksFor_finalize (by decide) _ asks
    intro held asks
    rcases mayAsk_ask.mp asks with rfl | ⟨pools, asks⟩
    · exact .read rfl
    rcases mayAsk_ask.mp asks with rfl | ⟨ports, asks⟩
    · exact .read rfl
    split at asks
    · exact asksFor_release held asks
    · exact asks.elim
  · split at asks
    · exact asksFor_writeStatus (c.restated_withPhase (by decide) _) asks
    · exact asksFor_writeStatus (c.restated_withPhase (by decide) _) asks
    · exact asks.elim

theorem asksFor_portPool {now : Timestamp} {name : String} {p : PortPool} {rest : Pass Outcome}
    (finds : (portPool now name).Finds p rest) (asks : rest.MayAsk r) : AsksFor p r := by
  cases finds
  simp only at asks
  split at asks
  · apply asksFor_finalize (by decide) _ asks
    intro held asks
    rcases mayAsk_ask.mp asks with rfl | ⟨ports, asks⟩
    · exact .read rfl
    split at asks
    · exact asksFor_release held asks
    · exact asks.elim
  · split at asks
    · exact asksFor_writeStatus (p.restated_withPhase (by decide) _) asks
    · unfold checkOverlap at asks
      split at asks
      · exact asksFor_writeStatus (p.restated_withOverlap ..) asks
      · exact asks.elim
      · rcases mayAsk_ask.mp asks with rfl | ⟨pools, asks⟩
        · exact .read rfl
        · exact asksFor_writeStatus (p.restated_checked now pools) asks
      · exact asksFor_writeStatus (p.restated_withPhase (by decide) _) asks
    · exact asks.elim

theorem asksFor_portClaim {claimPrefix ns name : String} {c : PortClaim} {rest : Pass Outcome}
    (finds : (portClaim claimPrefix ns name).Finds c rest) (asks : rest.MayAsk r) :
    AsksFor c r := by
  cases finds
  simp only at asks
  split at asks
  · apply asksFor_finalize (by decide) _ asks
    intro held asks
    rcases mayAsk_ask.mp asks with rfl | ⟨pods, asks⟩
    · exact .read rfl
    split at asks
    · exact asks.elim
    · exact asksFor_release held asks
  · split at asks
    next new =>
      apply asksFor_writeStatus _ asks
      exact ⟨_, rfl, fun phased => absurd new phased⟩
    next =>
      rcases mayAsk_ensureBackingPort asks with ⟨p, rfl⟩ | ⟨uid, _, asks⟩
      · exact .create p
      · apply asksFor_writeStatus _ asks
        exact ⟨_, rfl, fun _ _ _ => ⟨fun _ => nofun, fun _ => nofun⟩⟩
    next =>
      unfold healClaim at asks
      split at asks
      · exact asks.elim
      · rcases mayAsk_find asks with rfl | ⟨found, asks⟩
        · exact .read rfl
        cases found with
        | some p => exact asks.elim
        | none =>
          rcases mayAsk_ensureBackingPort asks with ⟨p, rfl⟩ | ⟨_, _, asks⟩
          · exact .create p
          · exact asks.elim
    next => exact asks.elim

theorem asksFor_port {name : String} {p : Port} {rest : Pass Outcome}
    (finds : (port name).Finds p rest) (asks : rest.MayAsk r) : AsksFor p r := by
  cases finds
  simp only at asks
  split at asks
  · apply asksFor_finalize (by decide) _ asks
    intro held asks
    split at asks
    · exact asksFor_release held asks
    · rcases mayAsk_checkClaim asks with rfl | ⟨lives, asks⟩
      · exact .read rfl
      split at asks
      · exact asks.elim
      · exact asksFor_release held asks
  · split at asks
    next new =>
      apply asksFor_writeStatus _ asks
      exact ⟨_, rfl, fun phased => absurd new phased⟩
    next =>
      rcases mayAsk_ask.mp asks with rfl | ⟨class_, asks⟩
      · exact .read rfl
      rcases mayAsk_ask.mp asks with rfl | ⟨pools, asks⟩
      · exact .read rfl
      rcases mayAsk_ask.mp asks with rfl | ⟨ports, asks⟩
      · exact .read rfl
      split at asks
      · exact asks.elim
      · apply asksFor_writeStatus _ asks
        exact ⟨_, rfl, fun _ _ _ => ⟨fun _ => nofun, fun _ => nofun⟩⟩
    next =>
      unfold reclaimPort at asks
      split at asks
      · exact asks.elim
      · rcases mayAsk_checkClaim asks with rfl | ⟨lives, asks⟩
        · exact .read rfl
        split at asks
        · exact asks.elim
        · cases mayAsk_commit.mp asks
          exact .delete p
    next => exact asks.elim

/-- Whatever a pass is told, it asks for nothing else once it has found its object. -/
theorem asksFor_pass {now : Timestamp} {claimPrefix : String} {ref : ObjectRef}
    {rest : Pass Outcome} (finds : (pass now claimPrefix k ref).Finds o rest)
    (asks : rest.MayAsk r) : AsksFor o r := by
  cases k with
  | portClass => exact asksFor_portClass finds asks
  | portPool => exact asksFor_portPool finds asks
  | portClaim => exact asksFor_portClaim finds asks
  | port => exact asksFor_port finds asks
  | pod => cases finds

end Reconcile
end HostPorts
