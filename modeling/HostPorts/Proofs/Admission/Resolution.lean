import HostPorts.Admission.Injection
import Mathlib.Data.List.Nodup

/-!
When an injection succeeds. Pod and annotations have to fit together, which the pod alone settles
(`Injectable`), and the store that is asked has to lead from every claim to a number (`Tells`).
Nothing is assumed of the store: it may be of any kind and may change while it is asked.
-/
namespace HostPorts

def ContainerPort.label (cp : ContainerPort) : String := cp.name.getD ""

def Pod.ports (p : Pod) : List ContainerPort :=
  (Injection.containersOf p).flatMap fun c => c.ports.getD []

namespace Injection

variable {σ : Type} {answer : (r : Request) → σ → r.Reply × σ} {s s' t : σ}
  {prefixes : AnnotationPrefixes} {ns claimName path : String} {n : UInt16} {p : Pod}

/-- Asked for the claim and then for the port behind it, the store tells the number. -/
inductive Yields (answer : (r : Request) → σ → r.Reply × σ) (ns claimName : String) (s : σ) :
    UInt16 → σ → Prop where
  | number {c : PortClaim} {port : Port} {t s' : σ}
      (claim : answer (.get .portClaim ⟨some ns, claimName⟩) s = (.ok c, t))
      (phase : c.phase = some .settled ∨ c.phase = some .deleting) (held : c.isProtected = true)
      (behind : answer (.get .port ⟨none, c.backingPortName.getD ""⟩) t = (.ok port, s'))
      (allocated : port.phase = some .settled) (nonzero : port.number ≠ 0) :
      Yields answer ns claimName s port.number s'

inductive Tells (answer : (r : Request) → σ → r.Reply × σ) (ns : String) :
    List (String × String) → σ → List (String × UInt16) → σ → Prop where
  | nil (s : σ) : Tells answer ns [] s [] s
  | cons {name claimName : String} {rest : List (String × String)} {s t s' : σ} {n : UInt16}
      {numbers : List (String × UInt16)} (first : Yields answer ns claimName s n t)
      (others : Tells answer ns rest t numbers s') :
      Tells answer ns ((name, claimName) :: rest) s ((name, n) :: numbers) s'

theorem Tells.names {pairs : List (String × String)}
    {numbers : List (String × UInt16)} (tells : Tells answer ns pairs s numbers s') :
    numbers.map Prod.fst = pairs.map Prod.fst := by
  induction tells with
  | nil => rfl
  | cons _ _ ih => rw [List.map_cons, List.map_cons, ih]

theorem claimErrors_nil_iff {c : PortClaim} : claimErrors path claimName c = [] ↔
    (c.phase = some .settled ∨ c.phase = some .deleting) ∧ c.isProtected = true := by
  rw [claimErrors, List.append_eq_nil_iff]
  apply and_congr
  · split
    next fit => simpa using fit
    next unfit => simpa using unfit
  · split
    next held => simp [held]
    next free => simp [free]

theorem run_resolve_of_yields (path : String) (yields : Yields answer ns claimName s n s') :
    (resolve ns claimName path).run answer s = (.ok n, s') := by
  obtain @⟨c, port, t, s', claim, phase, held, behind, allocated, nonzero⟩ := yields
  have sound : claimErrors path claimName c = [] := claimErrors_nil_iff.mpr ⟨phase, held⟩
  simp only [resolve, Pass.run, claim, sound, ne_eq, not_true_eq_false, if_false, behind,
    allocated, nonzero, decide_true, decide_not, decide_false, Bool.not_false, Bool.and_true,
    if_true]

theorem run_resolve_cases (answer : (r : Request) → σ → r.Reply × σ) (s : σ)
    (ns claimName path : String) :
    (∃ n s', Yields answer ns claimName s n s') ∨ ∃ errors s', errors ≠ [] ∧
      (resolve ns claimName path).run answer s = (.error errors, s') := by
  rcases claim : answer (.get .portClaim ⟨some ns, claimName⟩) s with ⟨e | (c : PortClaim), t⟩
  · refine Or.inr ⟨[lookupError path claimName e], t, List.cons_ne_nil _ _, ?_⟩
    simp only [resolve, Pass.run, claim]
  by_cases fit : claimErrors path claimName c = []
  · obtain ⟨phase, held⟩ := claimErrors_nil_iff.mp fit
    rcases behind : answer (.get .port ⟨none, c.backingPortName.getD ""⟩) t with
      ⟨e | (port : Port), s'⟩
    · refine Or.inr ⟨[lookupError path (c.backingPortName.getD "") e], s',
        List.cons_ne_nil _ _, ?_⟩
      simp only [resolve, Pass.run, claim, fit, ne_eq, not_true_eq_false, if_false, behind]
    cases ready : decide (port.phase = some .settled) && decide (port.number ≠ 0) with
    | true =>
      rw [Bool.and_eq_true, decide_eq_true_eq, decide_eq_true_eq] at ready
      exact Or.inl ⟨_, s', .number claim phase held behind ready.1 ready.2⟩
    | false =>
      refine Or.inr ⟨[FieldError.invalid path (c.backingPortName.getD "")
        "port is not allocated yet"], s', List.cons_ne_nil _ _, ?_⟩
      simp only [resolve, Pass.run, claim, fit, ne_eq, not_true_eq_false, if_false, behind]
      rw [ready, if_neg Bool.false_ne_true]
      rfl
  · refine Or.inr ⟨claimErrors path claimName c, t, fit, ?_⟩
    simp only [resolve, Pass.run, claim, ne_eq, fit, not_false_eq_true, if_true]

theorem run_resolveAll_iff {pairs : List (String × String)} {numbers : List (String × UInt16)} :
    (resolveAll prefixes ns pairs).run answer s = (([], numbers), s') ↔
      Tells answer ns pairs s numbers s' := by
  induction pairs generalizing s numbers with
  | nil =>
    constructor
    · intro done
      cases done
      exact .nil _
    · intro tells
      cases tells
      rfl
  | cons pair rest ih =>
    obtain ⟨name, claimName⟩ := pair
    rw [resolveAll, Pass.run_bind]
    rcases run_resolve_cases answer s ns claimName (claimPath prefixes name) with
      ⟨n, t, yields⟩ | ⟨es, t, reason, fails⟩
    · rw [run_resolve_of_yields _ yields, Pass.run_bind]
      constructor
      · intro done
        rcases others : (resolveAll prefixes ns rest).run answer t with ⟨⟨errors, numbers'⟩, s''⟩
        rw [others] at done
        cases done
        exact .cons yields (ih.mp others)
      · intro tells
        cases tells with
        | @cons _ _ _ _ t' _ n' numbers' first others =>
          have same := run_resolve_of_yields (claimPath prefixes name) first
          rw [run_resolve_of_yields _ yields] at same
          cases same
          rw [ih.mpr others]
          rfl
    · rw [fails, Pass.run_bind]
      constructor
      · intro done
        have none : es ++ _ = [] := congrArg (fun result => result.1.1) done
        exact absurd (List.append_eq_nil_iff.mp none).1 reason
      · intro tells
        cases tells with
        | cons first others =>
          rw [run_resolve_of_yields _ first] at fails
          cases fails

theorem annotationErrors_nil_iff {pair : String × String} :
    annotationErrors prefixes pair = [] ↔ pair.1 ≠ "" ∧ pair.2 ≠ "" := by
  unfold annotationErrors
  by_cases key : pair.1 = ""
  · simp [key]
  · by_cases value : pair.2 = "" <;> simp [key, value]

theorem siteErrors_nil_iff {claimed seen : List String} {sites : List Site} :
    siteErrors claimed seen sites = [] ↔
      (∀ t ∈ sites, 0 < t.value.hostPort.getD 0 → t.name ∈ claimed) ∧
        (claimed ≠ [] → (∀ t ∈ sites, t.name ≠ "" ∧ t.name ∉ seen) ∧
          (sites.map Site.name).Nodup) := by
  induction sites generalizing seen with
  | nil => simp [siteErrors]
  | cons t rest ih =>
    have hosted : (if 0 < t.value.hostPort.getD 0 && !claimed.contains t.name then
        [FieldError.invalid (t.path ++ ".hostPort") (toString (t.value.hostPort.getD 0))
          "host ports cannot be set"]
        else []) = [] ↔ (0 < t.value.hostPort.getD 0 → t.name ∈ claimed) := by
      by_cases positive : 0 < t.value.hostPort.getD 0 <;> simp [positive]
    rw [siteErrors, List.append_eq_nil_iff, List.append_eq_nil_iff, hosted, ih,
      List.forall_mem_cons]
    by_cases unclaimed : claimed = []
    · simp [unclaimed]
    · have some : claimed.isEmpty = false := by simpa using unclaimed
      have fresh : (∀ u ∈ rest, u.name ≠ "" ∧ u.name ∉ t.name :: seen) ↔
          (∀ u ∈ rest, u.name ≠ "" ∧ u.name ∉ seen) ∧ t.name ∉ rest.map Site.name := by
        simp only [List.mem_cons, not_or, List.mem_map, not_exists, not_and]
        grind
      by_cases named : t.name = ""
      · simp [some, named, unclaimed]
      · by_cases new : t.name ∈ seen
        · simp [some, named, new, unclaimed]
        · simp only [some, named, new, fresh, List.contains_eq_mem, decide_false, if_false,
            Bool.false_eq_true, List.map_cons, List.nodup_cons, List.forall_mem_cons, ne_eq,
            not_false_eq_true, true_and, unclaimed, forall_const]
          tauto

theorem sitesOf_values (p : Pod) : (sitesOf (containersOf p)).map Site.value = p.ports := by
  have ports : ∀ (ps : List ContainerPort) (i : Nat),
      (ps.zipIdx.map fun x => (⟨i, x.2, x.1⟩ : Site)).map Site.value = ps := by
    intro ps i
    rw [List.map_map]
    exact List.zipIdx_map_fst 0 ps
  rw [sitesOf, List.map_flatMap, Pod.ports]
  simp only [ports]
  rw [← List.flatMap_map Prod.fst fun c : Container => c.ports.getD [], List.zipIdx_map_fst]

/-- What a pod has to be like for its injection: claims are named for named ports; as soon as there
is one, every port has a name of its own; and host ports stand under names with a claim. -/
structure Injectable (claimPrefix : String) (p : Pod) : Prop where
  named : ∀ pair ∈ claimAnnotations p.metadata claimPrefix, pair.1 ≠ "" ∧ pair.2 ≠ ""
  distinct : claimAnnotations p.metadata claimPrefix ≠ [] →
    (∀ cp ∈ p.ports, cp.label ≠ "") ∧ (p.ports.map ContainerPort.label).Nodup
  claimed : ∀ cp ∈ p.ports, 0 < cp.hostPort.getD 0 →
    cp.label ∈ (claimAnnotations p.metadata claimPrefix).map Prod.fst

theorem found_nil_iff :
    (claimAnnotations p.metadata prefixes.claim).flatMap (annotationErrors prefixes) ++
        siteErrors (((claimAnnotations p.metadata prefixes.claim).filter fun pair =>
          pair.1 ≠ "").map (·.1)) [] (sitesOf (containersOf p)) = [] ↔
      Injectable prefixes.claim p := by
  rw [List.append_eq_nil_iff, List.flatMap_eq_nil_iff]
  simp only [annotationErrors_nil_iff]
  have sound : ∀ named : ∀ pair ∈ claimAnnotations p.metadata prefixes.claim,
      pair.1 ≠ "" ∧ pair.2 ≠ "",
      siteErrors (((claimAnnotations p.metadata prefixes.claim).filter fun pair =>
          pair.1 ≠ "").map (·.1)) [] (sitesOf (containersOf p)) = [] ↔
        (∀ cp ∈ p.ports, 0 < cp.hostPort.getD 0 →
          cp.label ∈ (claimAnnotations p.metadata prefixes.claim).map Prod.fst) ∧
        (claimAnnotations p.metadata prefixes.claim ≠ [] →
          (∀ cp ∈ p.ports, cp.label ≠ "") ∧ (p.ports.map ContainerPort.label).Nodup) := by
    intro named
    have all : (claimAnnotations p.metadata prefixes.claim).filter (fun pair => pair.1 ≠ "") =
        claimAnnotations p.metadata prefixes.claim :=
      List.filter_eq_self.mpr fun pair member => by simpa using (named pair member).1
    rw [all, siteErrors_nil_iff, ← sitesOf_values, List.map_map]
    simp only [List.forall_mem_map, List.not_mem_nil, not_false_eq_true, and_true, ne_eq,
      List.map_eq_nil_iff]
    exact Iff.rfl
  constructor
  · rintro ⟨named, ports⟩
    obtain ⟨claimed, distinct⟩ := (sound named).mp ports
    exact ⟨named, distinct, claimed⟩
  · rintro ⟨named, distinct, claimed⟩
    exact ⟨named, (sound named).mpr ⟨claimed, distinct⟩⟩

/-- An injection succeeds just if the pod is fit for it and the store tells a number for every
claim; the numbers are then put into the pod one after the other. -/
theorem run_inject_iff {m : Pod} :
    ((inject prefixes ns p).run answer s).1 = .ok m ↔
      Injectable prefixes.claim p ∧ ∃ numbers s',
        Tells answer ns (claimAnnotations p.metadata prefixes.claim) s numbers s' ∧
          m = numbers.foldl (place prefixes (sitesOf (containersOf p))) p := by
  have all : Injectable prefixes.claim p →
      ((claimAnnotations p.metadata prefixes.claim).filter fun pair => pair.1 ≠ "").filter
        (fun pair => pair.2 ≠ "") = claimAnnotations p.metadata prefixes.claim := by
    intro fit
    rw [List.filter_filter, List.filter_eq_self]
    intro pair member
    simpa using (fit.named pair member).symm
  unfold inject
  simp only [Pass.run_bind, Pass.run]
  constructor
  · intro done
    split at done
    next none =>
      cases done
      obtain ⟨found, failed⟩ := List.append_eq_nil_iff.mp none
      have fit := found_nil_iff.mp found
      rw [all fit] at failed ⊢
      exact ⟨fit, _, _, run_resolveAll_iff.mp (Prod.ext (Prod.ext failed rfl) rfl), rfl⟩
    next => contradiction
  · rintro ⟨fit, numbers, s', tells, rfl⟩
    rw [all fit, run_resolveAll_iff.mpr tells]
    simp only [List.append_nil]
    rw [if_pos (found_nil_iff.mpr fit)]

end Injection
end HostPorts
