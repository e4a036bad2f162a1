import HostPorts.Proofs.Admission.Agreement
import Mathlib.Data.List.Chain

/-!
Chains of writes, each reviewed beside the one before it. Reviews compare neighbours only and take
an absent status, a number 0 and an absent name alike for nothing set; still a chain passes just if
every write keeps what any earlier one had set and the first number comes with the settled phase
(`accepted_chains_freeze`), so that nothing is cleared and set anew by a detour.
-/
namespace HostPorts

/-- The later of two versions refers to the same class and claim and keeps what was set. -/
def Object.Freezes {k : Kind} (old new : Object k) : Prop := new.spec = old.spec ∧ old.Keeps new

theorem Object.Freezes.trans {k : Kind} {a b c : Object k} (h : a.Freezes b) (h' : b.Freezes c) :
    a.Freezes c :=
  ⟨h'.1.trans h.1, h.2.trans h'.2⟩

theorem Object.chain_freezes_iff {k : Kind} {writes : List (Object k)} :
    writes.IsChain Object.Freezes ↔ writes.Pairwise Object.Freezes :=
  have : IsTrans (Object k) Object.Freezes := ⟨fun _ _ _ => Object.Freezes.trans⟩
  List.isChain_iff_pairwise

namespace Port

/-- Each write passes beside the one before it; the first is a creation where `old` is absent. -/
def Accepted : Option Port → List Port → Prop
  | _, [] => True
  | old, new :: later => new.errors old = [] ∧ Accepted (some new) later

/-- The first port with a number has it together with the settled phase. -/
def SettlesFirst (writes : List Port) : Prop :=
  ∀ p ∈ writes.find? fun p => p.number ≠ 0, p.phase = some .settled

variable {old new : Port} {later : List Port}

theorem settlesFirst_cons :
    SettlesFirst (new :: later) ↔
      (new.number ≠ 0 → new.phase = some .settled) ∧ (new.number = 0 → SettlesFirst later) := by
  unfold SettlesFirst
  by_cases unset : new.number = 0
  · rw [List.find?_cons_of_neg (by simpa using unset)]
    simp [unset]
  · rw [List.find?_cons_of_pos (by simpa using unset)]
    simp [unset]

theorem freezes_iff : old.Freezes new ↔ new.spec.classRef = old.spec.classRef ∧
    new.spec.claimRef = old.spec.claimRef ∧ (old.number ≠ 0 → new.number = old.number) := by
  have spec : new.spec = old.spec ↔
      new.spec.classRef = old.spec.classRef ∧ new.spec.claimRef = old.spec.claimRef := by
    cases new.spec
    cases old.spec
    simp only [PortSpec.mk.injEq, and_comm]
  rw [Object.Freezes, spec, and_assoc]
  rfl

theorem updateErrors_nil_iff : new.updateErrors old = [] ↔ old.Freezes new := by
  simp only [updateErrors, freezes_iff, List.append_eq_nil_iff, ite_eq_right_iff,
    List.cons_ne_nil, imp_false, Bool.and_eq_true, decide_eq_true_eq, not_and, Decidable.not_not,
    and_assoc, ne_eq]

theorem errors_none_nil_iff :
    new.errors none = [] ↔ (new.number ≠ 0 → new.phase = some .settled) := by
  simp [errors]

theorem errors_some_nil_iff :
    new.errors (some old) = [] ↔ old.Freezes new ∧
      (new.number ≠ 0 → new.number ≠ old.number → new.phase = some .settled) := by
  rw [← updateErrors_nil_iff]
  simp [errors]

theorem accepted_some_iff : Accepted (some old) later ↔
    (old :: later).IsChain Object.Freezes ∧ (old.number = 0 → SettlesFirst later) := by
  -- The number of the write before decides: from 0 on the rest must settle first, and from any
  -- other on it is kept.
  induction later generalizing old with
  | nil => simp [Accepted, SettlesFirst]
  | cons new rest ih =>
    rw [Accepted, ih, errors_some_nil_iff, List.isChain_cons_cons, settlesFirst_cons]
    constructor
    · rintro ⟨⟨freezes, settles⟩, chain, first⟩
      refine ⟨⟨freezes, chain⟩, fun unset => ⟨fun set => settles set ?_, first⟩⟩
      rwa [unset]
    · rintro ⟨⟨freezes, chain⟩, first⟩
      have unset : old.number ≠ new.number → old.number = 0 := by
        intro differs
        by_contra set
        exact differs (freezes.2 set).symm
      refine ⟨⟨freezes, fun set differs => (first (unset differs.symm)).1 set⟩, chain, ?_⟩
      intro cleared
      by_cases same : old.number = new.number
      · exact (first (same.trans cleared)).2 cleared
      · exact (first (unset same)).2 cleared

theorem accepted_iff {writes : List Port} :
    Accepted none writes ↔ writes.Pairwise Object.Freezes ∧ SettlesFirst writes := by
  rw [← Object.chain_freezes_iff]
  cases writes with
  | nil => simp [Accepted, SettlesFirst]
  | cons new later =>
    rw [Accepted, accepted_some_iff, errors_none_nil_iff, settlesFirst_cons]
    exact and_left_comm

end Port

namespace PortClaim

variable {old new : PortClaim}

theorem freezes_iff : old.Freezes new ↔ new.spec.classRef = old.spec.classRef ∧
    ∀ name, old.boundPortName = some name → new.boundPortName = some name := by
  have spec : new.spec = old.spec ↔ new.spec.classRef = old.spec.classRef := by
    cases new.spec
    cases old.spec
    simp only [ClaimSpec.mk.injEq]
  rw [Object.Freezes, spec]
  rfl

theorem updateErrors_nil_iff : new.updateErrors old = [] ↔ old.Freezes new := by
  simp only [updateErrors, freezes_iff, List.append_eq_nil_iff, ite_eq_right_iff,
    List.cons_ne_nil, imp_false, Decidable.not_not]
  cases old.boundPortName <;> simp

end PortClaim

/-- A chain of ports passes just if every write refers to what any earlier one refers to and keeps
its number once there is one, and the first number comes with the settled phase. A chain of claims
passes just if every write refers to the class of any earlier one and keeps the name it is bound to
once there is one. -/
theorem accepted_chains_freeze :
    (∀ writes : List Port, Port.Accepted none writes ↔
      writes.Pairwise (fun old new => new.spec.classRef = old.spec.classRef ∧
        new.spec.claimRef = old.spec.claimRef ∧ (old.number ≠ 0 → new.number = old.number)) ∧
      ∀ p ∈ writes.find? fun p => p.number ≠ 0, p.phase = some .settled) ∧
    ∀ writes : List PortClaim, writes.IsChain (fun old new => new.updateErrors old = []) ↔
      writes.Pairwise (fun old new => new.spec.classRef = old.spec.classRef ∧
        ∀ name, old.boundPortName = some name → new.boundPortName = some name) := by
  simp only [← Port.freezes_iff, ← PortClaim.freezes_iff, PortClaim.updateErrors_nil_iff]
  exact ⟨fun _ => Port.accepted_iff, fun _ => Object.chain_freezes_iff⟩

end HostPorts
