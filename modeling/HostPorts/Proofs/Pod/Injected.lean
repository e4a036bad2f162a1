import HostPorts.Proofs.Pod.Exclusive

/-!
What injections are good for. They succeed just if the pod and the store allow it, with one outcome,
and an injection into that outcome changes nothing.
-/
namespace HostPorts

open Injection (inject Injectable Tells Injected)

variable {σ : Type} {answer : (r : Request) → σ → r.Reply × σ} {s : σ}
  {prefixes : AnnotationPrefixes} {ns : String} {p m : Pod}

/-- An injection succeeds if and only if the pod is fit for it and the store that is asked leads
from each claim to a number. The one pod that it then makes is the pod as given with these numbers
in it. -/
theorem injection_exact (answer : (r : Request) → σ → r.Reply × σ) (s : σ)
    (prefixes : AnnotationPrefixes) (ns : String) (p : Pod) :
    ((∃ m, ((inject prefixes ns p).run answer s).1 = .ok m) ↔
        Injectable prefixes.claim p ∧ ∃ numbers s',
          Tells answer ns (claimAnnotations p.metadata prefixes.claim) s numbers s') ∧
      ∀ m, ((inject prefixes ns p).run answer s).1 = .ok m ↔
        Injectable prefixes.claim p ∧ ∃ numbers s',
          Tells answer ns (claimAnnotations p.metadata prefixes.claim) s numbers s' ∧
            Injected prefixes.port p numbers m := by
  refine ⟨⟨?_, ?_⟩, fun m => Injection.run_inject_iff_injected⟩
  · rintro ⟨m, done⟩
    obtain ⟨fit, numbers, s', tells, _⟩ := Injection.run_inject_iff.mp done
    exact ⟨fit, numbers, s', tells⟩
  · rintro ⟨fit, numbers, s', tells⟩
    exact ⟨_, Injection.run_inject_iff.mpr ⟨fit, numbers, s', tells, rfl⟩⟩

/-- Where annotations of claims and of numbers are apart, an injection into the pod that one has
made changes nothing. That pod names the claims that the pod as given did, all of which have led to
a number. -/
theorem injection_idempotent (apart : prefixes.claim ≠ prefixes.port)
    (noSlash : '/' ∉ prefixes.claim.toList) (noSlash' : '/' ∉ prefixes.port.toList)
    (done : ((inject prefixes ns p).run answer s).1 = .ok m) :
    ((inject prefixes ns m).run answer s).1 = .ok m ∧
      claimAnnotations m.metadata prefixes.claim = claimAnnotations p.metadata prefixes.claim ∧
      Dependency.podToClaims m prefixes.claim = Dependency.podToClaims p prefixes.claim ∧
      ∃ numbers s', Tells answer ns (claimAnnotations p.metadata prefixes.claim) s numbers s' ∧
        ∀ claimName, PortClaim.isUsedBy claimName prefixes.claim m = true ↔
          ∃ portName, (portName, claimName) ∈ claimAnnotations p.metadata prefixes.claim := by
  obtain ⟨fit, numbers, s', tells, injected⟩ := Injection.run_inject_iff_injected.mp done
  have same : claimAnnotations m.metadata prefixes.claim =
      claimAnnotations p.metadata prefixes.claim := by
    obtain ⟨_, _, _, _, rfl⟩ := Injection.run_inject_iff.mp done
    exact Injection.claimAnnotations_places apart noSlash noSlash'
  refine ⟨?_, same, ?_, numbers, s', tells, ?_⟩
  · apply Injection.run_inject_iff_injected.mpr
    rw [same]
    exact ⟨fit.again same tells.names injected.spec, numbers, s', tells, injected.again⟩
  · rw [Dependency.podToClaims, Dependency.podToClaims, same, injected.metadata]
  · intro claimName
    simp [PortClaim.isUsedBy, same]

open Cluster (noon)

theorem injection_idempotent_web :
    let s := boundClaim.foldl (SerialMove.play "claims") {}
    ∃ m : Pod,
      ((inject ⟨"claims", "ports"⟩ "t" webPod).run (Store.answer noon) s).1 = .ok m ∧
      (Pod.hostPorts m).any (fun cp => cp.hostPort = some 5000) = true ∧
      ((inject ⟨"claims", "ports"⟩ "t" m).run (Store.answer noon) s).1 = .ok m ∧
      PortClaim.isUsedBy "web" "claims" m = true := by
  intro s
  have hosts : ((inject ⟨"claims", "ports"⟩ "t" webPod).run (Store.answer noon) s).1.toOption.any
      (fun m => (Pod.hostPorts m).any fun cp => cp.hostPort = some 5000) = true := by
    decide +kernel
  obtain ⟨m, made, hosts⟩ := (Option.any_eq_true ..).mp hosts
  have done : ((inject ⟨"claims", "ports"⟩ "t" webPod).run (Store.answer noon) s).1 = .ok m := by
    revert made
    cases ((inject ⟨"claims", "ports"⟩ "t" webPod).run (Store.answer noon) s).1 with
    | error e => exact nofun
    | ok m' => exact fun same => congrArg Except.ok (Option.some.inj same)
  obtain ⟨again, _, _, _, _, _, keeps⟩ :=
    injection_idempotent (by decide) (by decide) (by decide) done
  exact ⟨m, done, hosts, again, (keeps "web").mpr ⟨"http", by decide +kernel⟩⟩

end HostPorts
