import HostPorts.Proofs.Condition.Ledger
import HostPorts.Proofs.Pass.Deeds

/-!
What passes write about a pool that is not under deletion: its phase, and in the pending phase the
verdict on overlap.
-/
namespace HostPorts

theorem Conditions.status_set (now : Timestamp) (conditions : Conditions) (new : Condition) :
    ((conditions.set now new).2.find? new.type).map (·.status) = some new.status := by
  rw [find_set, if_pos rfl]
  cases conditions.find? new.type <;> rfl

namespace PortPool

variable {p p' : PortPool} {pools : List PortPool} {now : Timestamp}

theorem overlapStatus_of_status (same : p.status = p'.status) :
    p.overlapStatus = p'.overlapStatus := by
  simp only [overlapStatus, overlap?, conditions, same]

theorem phase_withOverlap (status : ConditionStatus) (reason message : String) :
    (p.withOverlap now status reason message).phase = p.phase := by
  cases p with
  | mk metadata spec status => cases status <;> rfl

theorem overlapStatus_withOverlap (status : ConditionStatus) (reason message : String) :
    (p.withOverlap now status reason message).overlapStatus = some status :=
  Conditions.status_set now _ ⟨overlapType, status, reason, message, none⟩

theorem overlapStatus_withPhase (phase : Phase) :
    overlapStatus (p.withPhase phase) = p.overlapStatus := by
  cases p with
  | mk metadata spec status => cases status <;> rfl

theorem checked_cases (p : PortPool) (pools : List PortPool) (now : Timestamp) :
    ((p.checked now pools).overlapStatus = some .false_ ∧
        (p.checked now pools).phase = p.phase) ∨
      p.findOverlap pools = none ∧ (p.checked now pools).overlapStatus = some .true_ ∧
        (p.checked now pools).phase = some .settled := by
  unfold checked
  split
  · exact Or.inl ⟨overlapStatus_withOverlap .., phase_withOverlap ..⟩
  next clear =>
    refine Or.inr ⟨clear, ?_, Object.phase_withPhase (by decide) _ .settled⟩
    exact (overlapStatus_withPhase .settled).trans (overlapStatus_withOverlap ..)

end PortPool

namespace Discipline

variable {D : Discipline} {s : Store}

theorem PoolWrite.cases {p new : PortPool} (write : D.PoolWrite p s new.status) :
    p.phase = none ∧ new.phase = some .pending ∧ new.overlapStatus = p.overlapStatus ∨
      p.phase = some .pending ∧
        (new.phase = some .pending ∧
            (p.overlapStatus = none ∧ new.overlapStatus = some .unknown ∨
              p.overlapStatus = some .unknown ∧ new.overlapStatus = some .false_) ∨
          new.phase = some .settled ∧ new.overlapStatus = some .true_ ∧
            (p.overlapStatus = some .true_ ∨
              p.overlapStatus = some .unknown ∧
                D.Once (fun s₁ => D.Seen p s₁ ∧ p.findOverlap s₁.pools.values = none) s)) := by
  -- phase and verdict are read off the status alone
  have reads : ∀ written : PortPool, new.status = written.status →
      new.phase = written.phase ∧ new.overlapStatus = written.overlapStatus := by
    intro written same
    refine ⟨?_, PortPool.overlapStatus_of_status same⟩
    rw [Object.phase, Object.phase, same]
  generalize is : new.status = status at write
  cases write with
  | pending first =>
    obtain ⟨phase, overlap⟩ := reads _ is
    rw [phase, overlap]
    exact Or.inl ⟨first, Object.phase_withPhase (by decide) p .pending,
      PortPool.overlapStatus_withPhase .pending⟩
  | unchecked waiting first =>
    obtain ⟨phase, overlap⟩ := reads _ is
    rw [phase, overlap, PortPool.phase_withOverlap, PortPool.overlapStatus_withOverlap]
    exact Or.inr ⟨waiting, Or.inl ⟨waiting, Or.inl ⟨first, rfl⟩⟩⟩
  | @checked now pools waiting due listed =>
    obtain ⟨phase, overlap⟩ := reads _ is
    rw [phase, overlap]
    refine Or.inr ⟨waiting, ?_⟩
    rcases PortPool.checked_cases p pools now with
      ⟨verdict, still⟩ | ⟨clear, verdict, settled⟩
    · exact Or.inl ⟨still.trans waiting, Or.inr ⟨due, verdict⟩⟩
    · obtain ⟨s₁, valid₁, ⟨seen, rfl⟩, drift⟩ := listed
      exact Or.inr ⟨settled, verdict, Or.inr ⟨due, s₁, valid₁, ⟨seen, clear⟩, drift⟩⟩
  | passed waiting clear =>
    obtain ⟨phase, overlap⟩ := reads _ is
    rw [phase, overlap, PortPool.overlapStatus_withPhase]
    exact Or.inr ⟨waiting, Or.inr ⟨Object.phase_withPhase (by decide) p .settled, clear,
      Or.inl clear⟩⟩

end Discipline
end HostPorts
