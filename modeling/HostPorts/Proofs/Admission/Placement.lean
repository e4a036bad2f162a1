import HostPorts.Proofs.Admission.Annotations
import HostPorts.Proofs.Admission.Resolution
import HostPorts.Proofs.Json.Members

/-!
The pod that an injection makes. It is the pod as given, with the numbers of its claims as host
ports of the container ports of their names and in annotations, and not different in anything else.
-/
namespace HostPorts

theorem modify_eq_map {α : Type} {f g : α → α} {xs : List α} {i : Nat}
    (here : ∀ x, xs[i]? = some x → f x = g x)
    (beside : ∀ j x, j ≠ i → xs[j]? = some x → g x = x) : xs.modify i f = xs.map g := by
  apply List.ext_getElem?
  intro j
  rw [List.getElem?_modify, List.getElem?_map]
  cases found : xs[j]? with
  | none => simp
  | some x =>
    by_cases same : i = j
    · subst same
      simp [here x found]
    · simp [same, beside j x (Ne.symm same) found]

namespace ContainerPort

def hosted (number : String → Option UInt16) (cp : ContainerPort) : ContainerPort :=
  match number cp.label with
  | some n => { cp with hostPort := some (Int.ofNat n.toNat) }
  | none => cp

variable {f g : String → Option UInt16} {cp : ContainerPort}

theorem hosted_of_none (none : f cp.label = none) : cp.hosted f = cp := by simp [hosted, none]

theorem hosted_of_some {n : UInt16} (some : f cp.label = some n) :
    cp.hosted f = { cp with hostPort := .some (Int.ofNat n.toNat) } := by simp [hosted, some]

@[simp] theorem label_hosted : (cp.hosted f).label = cp.label := by
  cases number : f cp.label with
  | none => rw [hosted_of_none number]
  | some n => rw [hosted_of_some number]; rfl

theorem hosted_hosted : (cp.hosted f).hosted g = cp.hosted fun name => (g name).or (f name) := by
  cases later : g cp.label with
  | none =>
    rw [hosted_of_none (f := g) (by rwa [label_hosted])]
    simp [hosted, later]
  | some n =>
    have both : (g cp.label).or (f cp.label) = some n := by rw [later, Option.some_or]
    rw [hosted_of_some (f := g) (by rwa [label_hosted]),
      hosted_of_some (f := fun name => (g name).or (f name)) both]
    cases first : f cp.label with
    | none => rw [hosted_of_none first]
    | some m => rw [hosted_of_some first]

end ContainerPort

namespace Container

def hosted (number : String → Option UInt16) (c : Container) : Container :=
  { c with ports := c.ports.map fun ports => ports.map (ContainerPort.hosted number) }

variable {f g : String → Option UInt16} {c : Container}

theorem hosted_hosted : (c.hosted f).hosted g = c.hosted fun name => (g name).or (f name) := by
  obtain ⟨name, ports⟩ := c
  cases ports with
  | none => rfl
  | some ports => simp [hosted, Function.comp_def, ContainerPort.hosted_hosted]

theorem hosted_eq_self (none : ∀ cp ∈ c.ports.getD [], f cp.label = none) : c.hosted f = c := by
  obtain ⟨name, ports⟩ := c
  cases ports with
  | none => rfl
  | some ports =>
    have same : ports.map (ContainerPort.hosted f) = ports.map id :=
      List.map_congr_left fun cp member => ContainerPort.hosted_of_none (none cp member)
    simp [hosted, same]

theorem modify_eq_hosted {name : String} {n : UInt16} {i : Nat}
    (only : ∀ j cp, (c.ports.getD [])[j]? = some cp → (cp.label = name ↔ j = i)) :
    { c with
      ports := c.ports.map fun ports =>
        ports.modify i fun cp => { cp with hostPort := some (Int.ofNat n.toNat) } } =
      c.hosted (findEntry · [(name, n)]) := by
  obtain ⟨_, ports⟩ := c
  cases ports with
  | none => rfl
  | some ports =>
    simp only [hosted, Option.map_some, mk.injEq, Option.some.injEq, true_and]
    apply modify_eq_map
    · intro cp port
      have is := (only i cp port).mpr rfl
      rw [ContainerPort.hosted_of_some (n := n) (by simp [findEntry, is])]
    · intro j cp other port
      have isnt := mt (only j cp port).mp other
      exact ContainerPort.hosted_of_none (by simp [findEntry, Ne.symm isnt])

theorem ports_hosted :
    (c.hosted f).ports.getD [] = (c.ports.getD []).map (ContainerPort.hosted f) := by
  cases ports : c.ports <;> simp [hosted, ports]

end Container

/-- Init containers are left out. -/
def PodSpec.hosted (number : String → Option UInt16) (s : PodSpec) : PodSpec :=
  { s with containers := s.containers.map (Container.hosted number) }

theorem PodSpec.hosted_hosted {f g : String → Option UInt16} {s : PodSpec} :
    (s.hosted f).hosted g = s.hosted fun name => (g name).or (f name) := by
  simp [hosted, Function.comp_def, Container.hosted_hosted]

namespace Injection

variable {prefixes : AnnotationPrefixes} {p q : Pod} {n : UInt16} {f : String → Option UInt16}

def portAt (p : Pod) (container port : Nat) : Option ContainerPort :=
  (containersOf p)[container]?.bind fun c => (c.ports.getD [])[port]?

theorem mem_sitesOf {p : Pod} {t : Site} :
    t ∈ sitesOf (containersOf p) ↔ portAt p t.container t.port = some t.value := by
  rw [sitesOf, List.mem_flatMap, portAt, Option.bind_eq_some_iff]
  constructor
  · rintro ⟨⟨c, i⟩, member, listed⟩
    obtain ⟨⟨value, j⟩, member', rfl⟩ := List.mem_map.mp listed
    exact ⟨c, List.mem_zipIdx_iff_getElem?.mp member, List.mem_zipIdx_iff_getElem?.mp member'⟩
  · rintro ⟨c, found, found'⟩
    refine ⟨(c, t.container), List.mem_zipIdx_iff_getElem?.mpr found, ?_⟩
    exact List.mem_map.mpr ⟨(t.value, t.port), List.mem_zipIdx_iff_getElem?.mpr found', rfl⟩

theorem mem_ports {cp : ContainerPort} : cp ∈ p.ports ↔ ∃ i j, portAt p i j = some cp := by
  rw [← sitesOf_values, List.mem_map]
  constructor
  · rintro ⟨t, member, rfl⟩
    exact ⟨t.container, t.port, mem_sitesOf.mp member⟩
  · rintro ⟨i, j, found⟩
    exact ⟨⟨i, j, cp⟩, mem_sitesOf.mpr found, rfl⟩

theorem map_name_sitesOf (p : Pod) :
    (sitesOf (containersOf p)).map Site.name = p.ports.map ContainerPort.label := by
  rw [← sitesOf_values, List.map_map]
  rfl

def SamePorts (p q : Pod) : Prop :=
  ∀ i j, (portAt q i j).map ContainerPort.label = (portAt p i j).map ContainerPort.label

theorem portAt_hosted (spec : q.spec = p.spec.map (PodSpec.hosted f)) (i j : Nat) :
    portAt q i j = (portAt p i j).map (ContainerPort.hosted f) := by
  unfold portAt containersOf
  rw [spec]
  cases p.spec with
  | none => rfl
  | some spec =>
    simp only [Option.map_some, Option.getD_some, PodSpec.hosted, List.getElem?_map]
    cases spec.containers[i]? with
    | none => rfl
    | some c => simp [Container.ports_hosted]

theorem ports_hosted (spec : q.spec = p.spec.map (PodSpec.hosted f)) :
    q.ports = p.ports.map (ContainerPort.hosted f) := by
  unfold Pod.ports containersOf
  rw [spec]
  cases p.spec with
  | none => rfl
  | some spec =>
    simp [PodSpec.hosted, List.flatMap_map, List.map_flatMap, Container.ports_hosted]

theorem samePorts_hosted (spec : q.spec = p.spec.map (PodSpec.hosted f)) : SamePorts p q := by
  intro i j
  rw [portAt_hosted spec, Option.map_map]
  congr 1
  funext cp
  exact ContainerPort.label_hosted

theorem spec_setHostPort {t : Site}
    (only : ∀ i j, (portAt q i j).map ContainerPort.label = some t.name ↔
      i = t.container ∧ j = t.port) :
    (setHostPort t n q).spec = q.spec.map (PodSpec.hosted (findEntry · [(t.name, n)])) := by
  unfold setHostPort
  cases spec : q.spec with
  | none => rfl
  | some spec' =>
    have label : ∀ i c j cp, spec'.containers[i]? = some c → (c.ports.getD [])[j]? = some cp →
        (cp.label = t.name ↔ i = t.container ∧ j = t.port) := by
      intro i c j cp container port
      rw [← only i j, portAt, containersOf, spec]
      simp [container, port]
    simp only [Option.map_some, PodSpec.hosted, Option.some.injEq, PodSpec.mk.injEq, and_true]
    apply modify_eq_map
    · intro c container
      apply Container.modify_eq_hosted
      intro j cp port
      rw [label t.container c j cp container port, and_iff_right rfl]
    · intro i c other container
      apply Container.hosted_eq_self
      intro cp member
      obtain ⟨j, port⟩ := List.mem_iff_getElem?.mp member
      have isnt : cp.label ≠ t.name := by
        intro is
        exact other ((label i c j cp container port).mp is).1
      simp [findEntry, Ne.symm isnt]

theorem spec_hosted_eq_self (none : ∀ cp ∈ q.ports, f cp.label = none) :
    q.spec.map (PodSpec.hosted f) = q.spec := by
  unfold Pod.ports containersOf at none
  cases spec : q.spec with
  | none => rfl
  | some spec' =>
    simp only [spec, Option.map_some, Option.getD_some, List.mem_flatMap] at none
    have same : spec'.containers.map (Container.hosted f) = spec'.containers.map id :=
      List.map_congr_left fun c member => Container.hosted_eq_self fun cp listed =>
        none cp ⟨c, member, listed⟩
    rw [Option.map_some, PodSpec.hosted, same, List.map_id]

theorem spec_place (distinct : (p.ports.map ContainerPort.label).Nodup) (same : SamePorts p q)
    (r : String × UInt16) :
    (place prefixes (sitesOf (containersOf p)) q r).spec =
      q.spec.map (PodSpec.hosted (findEntry · [r])) := by
  have names : ((sitesOf (containersOf p)).map Site.name).Nodup := by rwa [map_name_sitesOf]
  unfold place
  split
  next nowhere =>
    symm
    apply spec_hosted_eq_self
    intro cp member
    obtain ⟨i, j, found⟩ := mem_ports.mp member
    have label := same i j
    rw [found] at label
    obtain ⟨old, found', is⟩ := Option.map_eq_some_iff.mp label.symm
    have other := List.find?_eq_none.mp nowhere ⟨i, j, old⟩ (mem_sitesOf.mpr found')
    have isnt : cp.label ≠ r.1 := by
      rw [← is]
      exact of_decide_eq_false (Bool.eq_false_iff.mpr other)
    simp [findEntry, Ne.symm isnt]
  next t somewhere =>
    have listed := List.mem_of_find?_eq_some somewhere
    obtain ⟨name, n⟩ := r
    have is : t.name = name := by simpa using List.find?_some somewhere
    subst is
    apply spec_setHostPort
    intro i j
    change (portAt q i j).map _ = _ ↔ _
    rw [same, Option.map_eq_some_iff]
    constructor
    · rintro ⟨cp, found, is⟩
      have here : ⟨i, j, cp⟩ ∈ sitesOf (containersOf p) := mem_sitesOf.mpr found
      rw [← List.inj_on_of_nodup_map names here listed is]
      exact ⟨rfl, rfl⟩
    · rintro ⟨rfl, rfl⟩
      exact ⟨t.value, mem_sitesOf.mp listed, rfl⟩

theorem spec_places (distinct : (p.ports.map ContainerPort.label).Nodup)
    {numbers : List (String × UInt16)} (once : (numbers.map Prod.fst).Nodup)
    (spec : q.spec = p.spec.map (PodSpec.hosted f)) :
    (numbers.foldl (place prefixes (sitesOf (containersOf p))) q).spec =
      p.spec.map (PodSpec.hosted fun name => (findEntry name numbers).or (f name)) := by
  induction numbers generalizing q f with
  | nil => exact spec
  | cons r rest ih =>
    obtain ⟨new, once⟩ := List.nodup_cons.mp once
    rw [List.foldl_cons, ih (f := fun name => (findEntry name [r]).or (f name)) once]
    · congr 2
      funext name
      by_cases same : r.1 = name
      · have absent : findEntry name rest = none := Members.findEntry_eq_none.mpr (same ▸ new)
        simp [findEntry, same, absent]
      · simp [findEntry, same]
    · rw [spec_place distinct (samePorts_hosted spec), spec, Option.map_map]
      congr 1
      funext spec'
      exact PodSpec.hosted_hosted

section Annotations

variable {sites : List Site} {numbers : List (String × UInt16)}

theorem metadata_place (prefixes : AnnotationPrefixes) (sites : List Site) (p : Pod)
    (r : String × UInt16) :
    (place prefixes sites p r).metadata =
      if r.1 ∈ sites.map Site.name then
        (annotate (prefixes.port ++ "/" ++ r.1) (toString r.2.toNat) p).metadata
      else p.metadata := by
  unfold place
  split
  next nowhere =>
    rw [if_neg]
    intro member
    obtain ⟨t, listed, is⟩ := List.mem_map.mp member
    simpa [is] using List.find?_eq_none.mp nowhere t listed
  next t somewhere =>
    rw [if_pos]
    · rfl
    · have is : t.name = r.1 := by simpa using List.find?_some somewhere
      exact List.mem_map.mpr ⟨t, List.mem_of_find?_eq_some somewhere, is⟩

theorem placeAll_keeps {numbers : List (String × UInt16)} {key : String}
    (other : ∀ r ∈ numbers, r.1 ∈ sites.map Site.name → key ≠ prefixes.port ++ "/" ++ r.1) :
    (numbers.foldl (place prefixes sites) p).metadata.annotationMap.find? key =
      p.metadata.annotationMap.find? key := by
  induction numbers generalizing p with
  | nil => rfl
  | cons r rest ih =>
    obtain ⟨first, later⟩ := List.forall_mem_cons.mp other
    rw [List.foldl_cons, ih later, metadata_place]
    split
    next placed =>
      change (SortedMap.insert p.metadata.annotationMap _ _).find? key = _
      rw [SortedMap.find_insert, if_neg (first placed)]
    next => rfl

theorem note_places (once : (numbers.map Prod.fst).Nodup) {r : String × UInt16}
    (listed : r ∈ numbers) (placed : r.1 ∈ sites.map Site.name) :
    (numbers.foldl (place prefixes sites) q).metadata.annotationMap.find?
      (prefixes.port ++ "/" ++ r.1) = some (toString r.2.toNat) := by
  induction numbers generalizing q with
  | nil => contradiction
  | cons r' rest ih =>
    obtain ⟨new, once⟩ := List.nodup_cons.mp once
    rw [List.foldl_cons]
    rcases List.mem_cons.mp listed with rfl | listed
    · rw [placeAll_keeps, metadata_place, if_pos placed]
      · change (SortedMap.insert q.metadata.annotationMap _ _).find? _ = _
        rw [SortedMap.find_insert, if_pos rfl]
      · intro r' listed' _ same
        have names : r.1 = r'.1 := by simpa using same
        exact new (List.mem_map.mpr ⟨r', listed', names.symm⟩)
    · exact ih once listed

theorem rest_places (some : numbers ≠ [] → q.metadata.annotations.isSome = true) :
    let m := numbers.foldl (place prefixes sites) q
    m.metadata = { q.metadata with annotations := m.metadata.annotations } ∧
      m.metadata.annotations.isSome = q.metadata.annotations.isSome := by
  induction numbers generalizing q with
  | nil => exact ⟨rfl, rfl⟩
  | cons r rest ih =>
    have here := some nofun
    have step : (place prefixes sites q r).metadata =
          { q.metadata with annotations := (place prefixes sites q r).metadata.annotations } ∧
        (place prefixes sites q r).metadata.annotations.isSome = true := by
      rw [metadata_place]
      split
      · exact ⟨rfl, rfl⟩
      · exact ⟨rfl, here⟩
    obtain ⟨others, present⟩ := ih (q := place prefixes sites q r) fun _ => step.2
    refine ⟨?_, (present.trans step.2).trans here.symm⟩
    rw [List.foldl_cons, others, step.1]

theorem claimAnnotations_places (apart : prefixes.claim ≠ prefixes.port)
    (noSlash : '/' ∉ prefixes.claim.toList) (noSlash' : '/' ∉ prefixes.port.toList) :
    claimAnnotations (numbers.foldl (place prefixes sites) q).metadata prefixes.claim =
      claimAnnotations q.metadata prefixes.claim := by
  induction numbers generalizing q with
  | nil => rfl
  | cons r rest ih =>
    rw [List.foldl_cons, ih, metadata_place]
    split
    · exact claimAnnotations_insert
        (fun port same => keys_apart apart noSlash noSlash' port r.1 same.symm) _
    · rfl

end Annotations

/-- The pod `m` is the pod `p` with these numbers in it, and does not differ in anything else. -/
structure Injected (portPrefix : String) (p : Pod) (numbers : List (String × UInt16)) (m : Pod) :
    Prop where
  spec : m.spec = p.spec.map (PodSpec.hosted (findEntry · numbers))
  noted : ∀ r ∈ numbers, r.1 ∈ p.ports.map ContainerPort.label →
    m.metadata.annotationMap.find? (portPrefix ++ "/" ++ r.1) = some (toString r.2.toNat)
  others : ∀ key, (∀ r ∈ numbers, r.1 ∈ p.ports.map ContainerPort.label →
      key ≠ portPrefix ++ "/" ++ r.1) →
    m.metadata.annotationMap.find? key = p.metadata.annotationMap.find? key
  present : m.metadata.annotations.isSome = p.metadata.annotations.isSome
  metadata : m.metadata = { p.metadata with annotations := m.metadata.annotations }
  status : m.status = p.status

namespace Injected

variable {portPrefix : String} {numbers : List (String × UInt16)} {m m' : Pod}

theorem of_places (once : (numbers.map Prod.fst).Nodup)
    (distinct : numbers ≠ [] → (p.ports.map ContainerPort.label).Nodup)
    (some : numbers ≠ [] → p.metadata.annotations.isSome = true) :
    Injected prefixes.port p numbers
      (numbers.foldl (place prefixes (sitesOf (containersOf p))) p) where
  spec := by
    by_cases none : numbers = []
    · subst none
      exact (spec_hosted_eq_self fun _ _ => rfl).symm
    · have start : p.spec = p.spec.map (PodSpec.hosted fun _ => .none) :=
        (spec_hosted_eq_self fun _ _ => rfl).symm
      rw [spec_places (distinct none) once start]
      simp only [Option.or_none]
  noted r listed named := note_places once listed (by rwa [map_name_sitesOf])
  others key missed := placeAll_keeps (by rwa [map_name_sitesOf])
  present := (rest_places some).2
  metadata := (rest_places some).1
  status := @Subsingleton.elim (Option Empty) _ _ _

theorem unique (h : Injected portPrefix p numbers m) (h' : Injected portPrefix p numbers m') :
    m = m' := by
  have annotations : m.metadata.annotations = m'.metadata.annotations := by
    have present := h.present.trans h'.present.symm
    have maps : m.metadata.annotationMap = m'.metadata.annotationMap := by
      apply SortedMap.ext_find
      intro key
      by_cases placed : ∃ r ∈ numbers, r.1 ∈ p.ports.map ContainerPort.label ∧
          key = portPrefix ++ "/" ++ r.1
      · obtain ⟨r, listed, named, rfl⟩ := placed
        rw [h.noted r listed named, h'.noted r listed named]
      · have missed : ∀ r ∈ numbers, r.1 ∈ p.ports.map ContainerPort.label →
            key ≠ portPrefix ++ "/" ++ r.1 := fun r listed named same =>
          placed ⟨r, listed, named, same⟩
        rw [h.others key missed, h'.others key missed]
    unfold Metadata.annotationMap at maps
    cases left : m.metadata.annotations <;> cases right : m'.metadata.annotations <;>
      simp_all
  have metadata : m.metadata = m'.metadata := by rw [h.metadata, h'.metadata, annotations]
  obtain ⟨_, _, _⟩ := m
  obtain ⟨_, _, _⟩ := m'
  congr 1
  · exact h.spec.trans h'.spec.symm
  · exact h.status.trans h'.status.symm

theorem keeps (h : Injected portPrefix p numbers m) {key : String}
    (present : p.metadata.annotationMap.find? key ≠ none) :
    m.metadata.annotationMap.find? key ≠ none := by
  by_cases placed : ∃ r ∈ numbers, r.1 ∈ p.ports.map ContainerPort.label ∧
      key = portPrefix ++ "/" ++ r.1
  · obtain ⟨r, listed, named, rfl⟩ := placed
    rw [h.noted r listed named]
    exact Option.some_ne_none _
  · rwa [h.others key fun r listed named same => placed ⟨r, listed, named, same⟩]

theorem again (h : Injected portPrefix p numbers m) : Injected portPrefix m numbers m where
  spec := by
    rw [h.spec, Option.map_map]
    congr 1
    funext spec
    rw [Function.comp_apply, PodSpec.hosted_hosted]
    simp only [Option.or_self]
  noted r listed named := h.noted r listed (by simpa [ports_hosted h.spec] using named)
  others _ _ := rfl
  present := rfl
  metadata := rfl
  status := rfl

end Injected

section Runs

variable {σ : Type} {answer : (r : Request) → σ → r.Reply × σ} {s s' : σ} {ns : String}
  {pairs : List (String × String)} {numbers : List (String × UInt16)} {m : Pod}

/-- What a fit pod is made into is the pod with the numbers that the store tells. -/
theorem run_inject_iff_injected :
    ((inject prefixes ns p).run answer s).1 = .ok m ↔
      Injectable prefixes.claim p ∧ ∃ numbers s',
        Tells answer ns (claimAnnotations p.metadata prefixes.claim) s numbers s' ∧
          Injected prefixes.port p numbers m := by
  have placed : Injectable prefixes.claim p → ∀ numbers s',
      Tells answer ns (claimAnnotations p.metadata prefixes.claim) s numbers s' →
        Injected prefixes.port p numbers
          (numbers.foldl (place prefixes (sitesOf (containersOf p))) p) := by
    intro fit numbers s' tells
    have claims : numbers ≠ [] → claimAnnotations p.metadata prefixes.claim ≠ [] := by
      intro some none
      have names := tells.names
      rw [none] at names
      exact some (List.map_eq_nil_iff.mp names)
    apply Injected.of_places
    · rw [tells.names]
      exact claimAnnotations_once ..
    · exact fun some => (fit.distinct (claims some)).2
    · exact fun some => annotated_of_claimed (claims some)
  rw [run_inject_iff]
  constructor
  · rintro ⟨fit, numbers, s', tells, rfl⟩
    exact ⟨fit, numbers, s', tells, placed fit numbers s' tells⟩
  · rintro ⟨fit, numbers, s', tells, injected⟩
    exact ⟨fit, numbers, s', tells, injected.unique (placed fit numbers s' tells)⟩

theorem Injectable.again (fit : Injectable prefixes.claim p)
    (same : claimAnnotations m.metadata prefixes.claim = claimAnnotations p.metadata prefixes.claim)
    (told : numbers.map Prod.fst = (claimAnnotations p.metadata prefixes.claim).map Prod.fst)
    (spec : m.spec = p.spec.map (PodSpec.hosted (findEntry · numbers))) :
    Injectable prefixes.claim m := by
  have ports := ports_hosted spec
  refine ⟨by rw [same]; exact fit.named, ?_, ?_⟩
  · intro some
    rw [same] at some
    obtain ⟨named, distinct⟩ := fit.distinct some
    have labels : ContainerPort.label ∘ ContainerPort.hosted (findEntry · numbers) =
        ContainerPort.label := funext fun cp => ContainerPort.label_hosted
    rw [ports, List.map_map, labels, List.forall_mem_map]
    simp only [ContainerPort.label_hosted]
    exact ⟨named, distinct⟩
  · rw [same, ports, List.forall_mem_map]
    intro cp member positive
    rw [ContainerPort.label_hosted]
    cases number : findEntry cp.label numbers with
    | none =>
      rw [ContainerPort.hosted_of_none number] at positive
      exact fit.claimed cp member positive
    | some n =>
      rw [← told]
      exact List.mem_map.mpr ⟨_, Members.mem_of_findEntry number, rfl⟩

end Runs

end Injection
end HostPorts
