import HostPorts.Admission.Validation
import HostPorts.Proofs.Pool.Disjoint

/-!
Pools as admission lets them in. Each write is judged against the pools that are stored then, its
own older version among them, by the ends of the ranges. Over any history of writes and removals
this keeps the ranges free of common port numbers, and refuses nothing else
(`pool_admission_exact`).
-/
namespace HostPorts

inductive PoolRequest where
  | create (pool : PortPool)
  | update (pool : PortPool)
  | delete (name : String)

namespace PoolRequest

def Fits (t : Table .portPool) : PoolRequest → Prop
  | create pool => ∃ name, pool.metadata.name = some name ∧ t.find? name = none
  | update pool => ∃ name, pool.metadata.name = some name ∧ t.find? name ≠ none
  | delete _ => True

def isAccepted (t : Table .portPool) : PoolRequest → Bool
  | create pool | update pool => pool.errors t.values = []
  | delete _ => true

def granted (t : Table .portPool) : PoolRequest → Table .portPool
  | create pool | update pool => t.insert (pool.metadata.name.getD "") pool
  | delete name => t.erase name

def handle (t : Table .portPool) (r : PoolRequest) : Table .portPool :=
  if r.isAccepted t then r.granted t else t

end PoolRequest

/-- The pools after some requests, one at a time, from none on. -/
inductive Admitted : Table .portPool → Prop where
  | empty : Admitted SortedMap.empty
  | next {t : Table .portPool} {r : PoolRequest} (before : Admitted t) (fits : r.Fits t) :
      Admitted (r.handle t)

/-- The ranges are in order, and no port number lies in two of them. -/
structure Table.Apart (t : Table .portPool) : Prop where
  ordered : ∀ p : PortPool, p ∈ t.values → 1 ≤ p.spec.first ∧ p.spec.first ≤ p.spec.last
  disjoint : ∀ p q : PortPool, p ∈ t.values → q ∈ t.values → p.metadata.name ≠ q.metadata.name →
    ∀ n, ¬ (p.range.Contains n ∧ q.range.Contains n)

theorem PortRange.overlaps_iff {a b : PortRange} (ordered : a.first ≤ a.last)
    (ordered' : b.first ≤ b.last) :
    a.overlaps b = true ↔ ∃ n, a.Contains n ∧ b.Contains n := by
  constructor
  · intro overlaps
    obtain ⟨left, right⟩ : a.first ≤ b.last ∧ b.first ≤ a.last := by
      simpa [PortRange.overlaps] using overlaps
    rcases UInt16.le_total a.first b.first with le | le
    · exact ⟨b.first, ⟨le, right⟩, ⟨UInt16.le_refl _, ordered'⟩⟩
    · exact ⟨a.first, ⟨UInt16.le_refl _, ordered⟩, ⟨le, left⟩⟩
  · rintro ⟨n, within, within'⟩
    exact overlaps_of_contains within within'

namespace PortPool

variable {p : PortPool} {existing : List PortPool}

theorem rangeErrors_nil :
    p.rangeErrors = [] ↔ 1 ≤ p.spec.first ∧ p.spec.first ≤ p.spec.last := by
  have positive {n : UInt16} : ¬ n = 0 ↔ 1 ≤ n := by grind
  simp only [rangeErrors, List.append_eq_nil_iff, ite_eq_right_iff, List.cons_ne_nil, imp_false,
    positive, UInt16.not_lt]
  constructor
  · rintro ⟨⟨positive, _⟩, ordered⟩
    exact ⟨positive, ordered⟩
  · rintro ⟨positive, ordered⟩
    exact ⟨⟨positive, UInt16.le_trans positive ordered⟩, ordered⟩

theorem errors_nil :
    p.errors existing = [] ↔ p.rangeErrors = [] ∧ p.findOverlap existing = none := by
  unfold errors
  by_cases wrong : p.rangeErrors = []
  · cases found : p.findOverlap existing <;> simp [wrong]
  · simp [wrong]

theorem errors_nil_iff
    (ordered : ∀ q ∈ existing, q.spec.first ≤ q.spec.last) :
    p.errors existing = [] ↔ (1 ≤ p.spec.first ∧ p.spec.first ≤ p.spec.last) ∧
      ∀ q ∈ existing, q.metadata.name ≠ p.metadata.name →
        ∀ n, ¬ (p.range.Contains n ∧ q.range.Contains n) := by
  rw [errors_nil, rangeErrors_nil]
  refine and_congr_right fun own => ?_
  rw [findOverlap, List.find?_eq_none]
  refine forall₂_congr fun q among => ?_
  rw [Bool.and_eq_true, decide_eq_true_eq, not_and]
  refine forall_congr' fun other => ?_
  exact (not_congr (PortRange.overlaps_iff own.2 (ordered q among))).trans not_exists

end PortPool

namespace Table

variable {t : Table .portPool} {p q : PortPool} {name : String}

def Keyed (t : Table .portPool) : Prop :=
  ∀ key p, t.find? key = some p → p.metadata.name = some key

theorem Keyed.insert (h : t.Keyed) (named : p.metadata.name = some name) :
    Keyed (SortedMap.insert t name p) := by
  intro key q found
  rw [SortedMap.find_insert] at found
  split at found
  next here =>
    cases found
    exact here ▸ named
  next => exact h key q found

theorem Keyed.erase (h : t.Keyed) (name : String) : Keyed (SortedMap.erase t name) := by
  intro key q found
  rw [SortedMap.find_erase] at found
  split at found
  · contradiction
  · exact h key q found

theorem mem_values_insert (keyed : t.Keyed) (named : p.metadata.name = some name) :
    q ∈ (SortedMap.insert t name p).values ↔
      q = p ∨ q ∈ t.values ∧ q.metadata.name ≠ p.metadata.name := by
  simp only [SortedMap.mem_values, SortedMap.find_insert]
  constructor
  · rintro ⟨key, found⟩
    split at found
    next => exact Or.inl (Option.some.inj found).symm
    next other =>
      refine Or.inr ⟨⟨key, found⟩, ?_⟩
      rw [keyed key q found, named]
      exact fun same => other (Option.some.inj same)
  · rintro (rfl | ⟨⟨key, found⟩, other⟩)
    · exact ⟨name, if_pos rfl⟩
    · refine ⟨key, (if_neg ?_).trans found⟩
      rintro rfl
      exact other ((keyed key q found).trans named.symm)

theorem Apart.subset {t' : Table .portPool} (h : t.Apart)
    (fewer : ∀ q ∈ t'.values, q ∈ t.values) : t'.Apart :=
  ⟨fun p among => h.ordered p (fewer p among),
    fun p q among among' => h.disjoint p q (fewer p among) (fewer q among')⟩

/-- Storing a pool keeps ranges apart just if it has no errors. -/
theorem Apart.insert_iff (h : t.Apart) (keyed : t.Keyed) (named : p.metadata.name = some name) :
    Apart (SortedMap.insert t name p) ↔ p.errors t.values = [] := by
  have member {q : PortPool} := mem_values_insert (q := q) keyed named
  rw [PortPool.errors_nil_iff fun q among => (h.ordered q among).2]
  constructor
  · intro apart
    have own := member.mpr (Or.inl rfl)
    refine ⟨apart.ordered p own, fun q among other => ?_⟩
    exact apart.disjoint p q own (member.mpr (Or.inr ⟨among, other⟩)) other.symm
  · rintro ⟨ordered, clear⟩
    constructor
    · intro q among
      rcases member.mp among with rfl | ⟨old, _⟩
      · exact ordered
      · exact h.ordered q old
    · intro q q' among among' differ n
      rcases member.mp among with rfl | ⟨old, other⟩ <;>
        rcases member.mp among' with rfl | ⟨old', other'⟩
      · exact absurd rfl differ
      · exact clear q' old' other' n
      · exact fun both => clear q old other n both.symm
      · exact h.disjoint q q' old old' differ n

end Table

namespace PoolRequest

variable {t : Table .portPool} {r : PoolRequest}

theorem keyed_granted (keyed : t.Keyed) (fits : r.Fits t) : Table.Keyed (r.granted t) := by
  cases r with
  | create pool | update pool =>
    obtain ⟨name, named, _⟩ := fits
    exact keyed.insert (by simp [named])
  | delete name => exact keyed.erase name

theorem isAccepted_iff (apart : t.Apart) (keyed : t.Keyed) (fits : r.Fits t) :
    r.isAccepted t = true ↔ Table.Apart (r.granted t) := by
  cases r with
  | create pool | update pool =>
    obtain ⟨name, named, _⟩ := fits
    have same : pool.metadata.name.getD "" = name := by rw [named, Option.getD_some]
    simp only [isAccepted, granted, same, apart.insert_iff keyed named, decide_eq_true_eq]
  | delete name =>
    refine iff_of_true rfl (apart.subset fun q among => ?_)
    obtain ⟨key, found⟩ := SortedMap.mem_values.mp among
    rw [granted, SortedMap.find_erase] at found
    split at found
    · contradiction
    · exact SortedMap.mem_values.mpr ⟨key, found⟩

end PoolRequest

theorem Admitted.apart_keyed {t : Table .portPool} (admitted : Admitted t) :
    t.Apart ∧ t.Keyed := by
  induction admitted with
  | empty =>
    have none : ∀ p : PortPool, p ∉ (SortedMap.empty : Table .portPool).values := by
      simp [SortedMap.mem_values]
    refine ⟨⟨fun p among => absurd among (none p), fun p _ among => absurd among (none p)⟩, ?_⟩
    intro key p found
    rw [SortedMap.find_empty] at found
    contradiction
  | @next t r _ fits ih =>
    obtain ⟨apart, keyed⟩ := ih
    unfold PoolRequest.handle
    split
    next accepted =>
      exact ⟨(PoolRequest.isAccepted_iff apart keyed fits).mp accepted,
        PoolRequest.keyed_granted keyed fits⟩
    next => exact ⟨apart, keyed⟩

/-- At every point of a history the ranges are in order and apart, and the next request is accepted
just if they stay so when it is granted. -/
theorem pool_admission_exact {t : Table .portPool} (admitted : Admitted t) :
    t.Apart ∧
      ∀ r : PoolRequest, r.Fits t → (r.isAccepted t = true ↔ Table.Apart (r.granted t)) := by
  obtain ⟨apart, keyed⟩ := admitted.apart_keyed
  exact ⟨apart, fun r fits => PoolRequest.isAccepted_iff apart keyed fits⟩

def namedPool (name : String) (first last : UInt16) : PortPool :=
  ⟨{ name := some name }, ⟨"c", first, last, true⟩, none⟩

def narrowed : Table .portPool :=
  [.create (namedPool "a" 5000 5010), .update (namedPool "a" 5000 5009),
    .create (namedPool "b" 5010 5020)].foldl PoolRequest.handle SortedMap.empty

theorem pool_admission_exact_narrowed :
    Admitted narrowed ∧ narrowed.keys = ["a", "b"] ∧
      ¬ Table.Apart ((PoolRequest.update (namedPool "a" 5000 5010)).granted narrowed) ∧
      Table.Apart ((PoolRequest.update (namedPool "a" 4990 5009)).granted narrowed) := by
  have admitted : Admitted narrowed :=
    ((Admitted.empty.next (r := .create (namedPool "a" 5000 5010)) ⟨"a", rfl, rfl⟩).next
      (r := .update (namedPool "a" 5000 5009)) ⟨"a", rfl, by decide +kernel⟩).next
      (r := .create (namedPool "b" 5010 5020)) ⟨"b", rfl, by decide +kernel⟩
  obtain ⟨_, exact_⟩ := pool_admission_exact admitted
  have stored (first last : UInt16) :
      (PoolRequest.update (namedPool "a" first last)).Fits narrowed :=
    ⟨"a", rfl, by decide +kernel⟩
  refine ⟨admitted, by decide +kernel, ?_, ?_⟩
  · rw [← exact_ _ (stored 5000 5010)]
    decide +kernel
  · rw [← exact_ _ (stored 4990 5009)]
    decide +kernel

end HostPorts
