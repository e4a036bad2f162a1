import HostPorts.Proofs.Admission.Placement
import HostPorts.Proofs.Store.Effect

/-!
What an injection has found in the store when it succeeds: every host port of the pod carries the
number of the port behind the claim that the pod names for it.
-/
namespace HostPorts

/-- The claim of that name leads to the number of its port. -/
def Store.Resolves (s : Store) (ns claimName : String) (n : UInt16) : Prop :=
  ∃ (c : PortClaim) (p : Port), s.find .portClaim (ns ++ "/" ++ claimName) = some c ∧
    (c.phase = some .settled ∨ c.phase = some .deleting) ∧ c.isProtected = true ∧
    s.find .port (c.backingPortName.getD "") = some p ∧ p.phase = some .settled ∧ p.number ≠ 0 ∧
    p.number = n

namespace Injection

variable {s : Store} {now : Timestamp} {prefixes : AnnotationPrefixes} {ns : String}

theorem Yields.resolves {claimName : String} {n : UInt16} {t : Store}
    (yields : Yields (Store.answer now) ns claimName s n t) :
    t = s ∧ s.Resolves ns claimName n := by
  obtain ⟨claim, phase, held, behind, allocated, nonzero⟩ := yields
  obtain ⟨toldClaim, same⟩ := Prod.mk.inj claim
  subst same
  obtain ⟨toldPort, same⟩ := Prod.mk.inj behind
  exact ⟨same.symm, _, _, Store.find_of_get toldClaim, phase, held, Store.find_of_get toldPort,
    allocated, nonzero, rfl⟩

theorem Tells.resolves {pairs : List (String × String)} {numbers : List (String × UInt16)}
    {t : Store} (tells : Tells (Store.answer now) ns pairs s numbers t) :
    ∀ r ∈ numbers, ∃ claimName, (r.1, claimName) ∈ pairs ∧ s.Resolves ns claimName r.2 := by
  induction tells with
  | nil => exact nofun
  | @cons name claimName rest s _ _ n numbers first _ ih =>
    obtain ⟨rfl, resolves⟩ := first.resolves
    intro r member
    rcases List.mem_cons.mp member with rfl | member
    · exact ⟨claimName, List.mem_cons_self, resolves⟩
    · obtain ⟨claim, listed, resolves⟩ := ih r member
      exact ⟨claim, List.mem_cons_of_mem _ listed, resolves⟩

theorem inject_claimed {p m : Pod} {cp : ContainerPort} {i j : Nat}
    (done : (s.run now (inject prefixes ns p)).1 = .ok m)
    (found : portAt m i j = some cp) (positive : 0 < cp.hostPort.getD 0) :
    ∃ name claimName n, cp.name = some name ∧
      p.metadata.annotationMap.find? (prefixes.claim ++ "/" ++ name) = some claimName ∧
      s.Resolves ns claimName n ∧ cp.hostPort = some (Int.ofNat n.toNat) := by
  obtain ⟨fit, numbers, _, tells, injected⟩ := run_inject_iff_injected.mp done
  rw [portAt_hosted injected.spec] at found
  obtain ⟨old, place, rfl⟩ := Option.map_eq_some_iff.mp found
  -- a host port of the pod as given is claimed, and so the number of its claim goes there
  have claimed : ∃ n, findEntry old.label numbers = some n := by
    apply Option.ne_none_iff_exists'.mp
    intro none
    rw [ContainerPort.hosted_of_none none] at positive
    have named := fit.claimed old (mem_ports.mpr ⟨i, j, place⟩) positive
    rw [← tells.names] at named
    exact Members.findEntry_eq_none.mp none named
  obtain ⟨n, number⟩ := claimed
  obtain ⟨claimName, listed, resolves⟩ := tells.resolves _ (Members.mem_of_findEntry number)
  rw [ContainerPort.hosted_of_some number]
  refine ⟨old.label, claimName, n, ?_, mem_claimAnnotations.mp listed, resolves, rfl⟩
  have named : old.label ≠ "" := (fit.named _ listed).1
  unfold ContainerPort.label at named ⊢
  cases name : old.name with
  | none =>
    rw [name] at named
    contradiction
  | some text => rfl

theorem inject_keeps_claim {p m : Pod}
    (free : ∀ a b, prefixes.claim ++ "/" ++ a ≠ prefixes.port ++ "/" ++ b)
    (done : (s.run now (inject prefixes ns p)).1 = .ok m) (name : String) :
    m.metadata.annotationMap.find? (prefixes.claim ++ "/" ++ name) =
      p.metadata.annotationMap.find? (prefixes.claim ++ "/" ++ name) := by
  obtain ⟨_, _, _, _, injected⟩ := run_inject_iff_injected.mp done
  exact injected.others _ fun r _ _ => free name r.1

end Injection
end HostPorts
