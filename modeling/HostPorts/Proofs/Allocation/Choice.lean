import HostPorts.Reconcile.Port

/-!
What the allocator chooses: a free number of the range of an eligible pool, if there is one. That it
is the lowest one is not needed for the safety of a run and is left out here.
-/
namespace HostPorts
namespace Allocation

variable {occupied : UInt16 → Bool} {n : UInt16}

theorem lowestFreeFrom_spec {start count : Nat}
    (found : lowestFreeFrom occupied start count = some n) :
    ∃ i < count, n = UInt16.ofNat (start + i) ∧ occupied n = false := by
  induction count generalizing start with
  | zero => contradiction
  | succ count ih =>
    rw [lowestFreeFrom] at found
    split at found
    · obtain ⟨i, below, is, free⟩ := ih found
      refine ⟨i + 1, by omega, ?_, free⟩
      rw [is]
      congr 1
      omega
    next free =>
      cases found
      exact ⟨0, by omega, rfl, by simpa using free⟩

theorem lowestFree_spec {r : PortRange} (found : lowestFree occupied r = some n) :
    1 ≤ r.first ∧ r.Contains n ∧ occupied n = false := by
  unfold lowestFree at found
  split at found
  · contradiction
  next notZero =>
    obtain ⟨i, below, is, free⟩ := lowestFreeFrom_spec found
    have small : r.first.toNat + i < 2 ^ 16 := by
      have := r.last.toNat_lt
      omega
    have value : n.toNat = r.first.toNat + i := by
      rw [is, UInt16.toNat_ofNat_of_lt' small]
    refine ⟨?_, ⟨?_, ?_⟩, free⟩
    · have : r.first.toNat ≠ 0 := fun zero => notZero (UInt16.toNat_inj.mp zero)
      rw [UInt16.le_iff_toNat_le]
      change 1 ≤ r.first.toNat
      omega
    · rw [UInt16.le_iff_toNat_le]
      omega
    · rw [UInt16.le_iff_toNat_le]
      omega

theorem lowestFreeFrom_none {start count : Nat}
    (none : lowestFreeFrom occupied start count = none) :
    ∀ i < count, occupied (UInt16.ofNat (start + i)) = true := by
  induction count generalizing start with
  | zero => exact fun i below => absurd below (Nat.not_lt_zero i)
  | succ count ih =>
    rw [lowestFreeFrom] at none
    split at none
    next taken =>
      intro i below
      cases i with
      | zero => exact taken
      | succ i =>
        have later := ih none i (by omega)
        rwa [Nat.add_assoc, Nat.add_comm 1 i] at later
    · contradiction

theorem lowestFree_none {r : PortRange} (none : lowestFree occupied r = none)
    (positive : 1 ≤ r.first) (within : r.Contains n) : occupied n = true := by
  unfold lowestFree at none
  split at none
  next zero =>
    rw [zero] at positive
    contradiction
  · have first := UInt16.le_iff_toNat_le.mp within.1
    have last := UInt16.le_iff_toNat_le.mp within.2
    have taken := lowestFreeFrom_none none (n.toNat - r.first.toNat) (by omega)
    rwa [Nat.add_sub_cancel' first, UInt16.ofNat_toNat] at taken

theorem mem_insertOffer {new o : Offer} {offers : List Offer} :
    o ∈ insertOffer new offers ↔ o = new ∨ o ∈ offers := by
  induction offers with
  | nil => simp [insertOffer]
  | cons head rest ih =>
    rw [insertOffer]
    split
    · simp
    · rw [List.mem_cons, ih, List.mem_cons]
      constructor
      · rintro (h | h | h) <;> simp [h]
      · rintro (h | h | h) <;> simp [h]

theorem mem_sortOffers {o : Offer} {offers : List Offer} : o ∈ sortOffers offers ↔ o ∈ offers := by
  have folded : ∀ sorted, o ∈ offers.foldl (fun sorted offer => insertOffer offer sorted) sorted ↔
      o ∈ offers ∨ o ∈ sorted := by
    induction offers with
    | nil => simp
    | cons head rest ih =>
      intro sorted
      rw [List.foldl_cons, ih, mem_insertOffer, List.mem_cons]
      constructor
      · rintro (h | h | h) <;> simp [h]
      · rintro ((h | h) | h) <;> simp [h]
  simpa [sortOffers] using folded []

theorem mem_eligible {o : Offer} {pools : List PortPool} {className : String} :
    o ∈ eligible pools className ↔ ∃ p ∈ pools, isEligible className p = true ∧ o = offerOf p := by
  rw [eligible, mem_sortOffers, List.mem_map]
  constructor
  · rintro ⟨p, member, rfl⟩
    obtain ⟨listed, fit⟩ := List.mem_filter.mp member
    exact ⟨p, listed, fit, rfl⟩
  · rintro ⟨p, listed, fit, rfl⟩
    exact ⟨p, List.mem_filter.mpr ⟨listed, fit⟩, rfl⟩

theorem foldl_better_spec {offers : List Offer} {best : Option Allocation} {a : Allocation}
    (chosen : offers.foldl (better occupied) best = some a) :
    best = some a ∨ ∃ o ∈ offers, a.pool = o.name ∧ lowestFree occupied o.range = some a.port := by
  induction offers generalizing best with
  | nil => exact Or.inl chosen
  | cons head rest ih =>
    rcases ih chosen with now | ⟨o, member, is⟩
    · unfold better at now
      split at now
      · exact Or.inl now
      next port found =>
        have here : ∃ o ∈ head :: rest, (Allocation.mk port head.name).pool = o.name ∧
            lowestFree occupied o.range = some port :=
          ⟨head, List.mem_cons_self, rfl, found⟩
        split at now
        · cases now
          exact Or.inr here
        · split at now
          · cases now
            exact Or.inr here
          · exact Or.inl now
    · exact Or.inr ⟨o, List.mem_cons_of_mem head member, is⟩

theorem foldl_better_none {offers : List Offer} {best : Option Allocation}
    (none : offers.foldl (better occupied) best = none) :
    best = .none ∧ ∀ o ∈ offers, lowestFree occupied o.range = .none := by
  induction offers generalizing best with
  | nil => exact ⟨none, fun o listed => absurd listed List.not_mem_nil⟩
  | cons head rest ih =>
    obtain ⟨now, later⟩ := ih none
    unfold better at now
    split at now
    next nothing =>
      refine ⟨now, fun o listed => ?_⟩
      rcases List.mem_cons.mp listed with rfl | among
      · exact nothing
      · exact later o among
    · split at now
      · contradiction
      · split at now <;> contradiction

theorem allocate_error {className : String} {offers : List Offer} {e : AllocationError}
    (failed : allocate className offers occupied = .error e) :
    ∀ o ∈ offers, lowestFree occupied o.range = none := by
  unfold allocate at failed
  split at failed
  next empty =>
    rw [List.isEmpty_iff.mp empty]
    exact fun o listed => absurd listed List.not_mem_nil
  · split at failed
    · contradiction
    next nothing => exact (foldl_better_none nothing).2

theorem allocate_spec {className : String} {offers : List Offer} {a : Allocation}
    (chosen : allocate className offers occupied = .ok a) :
    ∃ o ∈ offers, a.pool = o.name ∧ lowestFree occupied o.range = some a.port := by
  unfold allocate at chosen
  split at chosen
  · contradiction
  · split at chosen
    next best =>
      cases chosen
      rcases foldl_better_spec best with none | some
      · contradiction
      · exact some
    · contradiction

end Allocation

namespace Port

/-- A port is given a number of an eligible pool's range that no port of another name holds. -/
theorem allocation_spec {p : Port} {pools : List PortPool} {ports : List Port} {a : Allocation}
    (choice : p.allocation pools ports = .ok a) :
    (∃ pool ∈ pools, Allocation.isEligible p.spec.classRef pool = true ∧
      a.pool = pool.metadata.name.getD "" ∧ 1 ≤ pool.spec.first ∧ pool.range.Contains a.port) ∧
    ∀ q ∈ ports, q.number ≠ 0 → q.number = a.port → q.displayName = p.displayName := by
  obtain ⟨o, member, pool, found⟩ := Allocation.allocate_spec choice
  obtain ⟨source, listed, fit, rfl⟩ := Allocation.mem_eligible.mp member
  obtain ⟨positive, within, free⟩ := Allocation.lowestFree_spec found
  refine ⟨⟨source, listed, fit, pool, positive, within⟩, ?_⟩
  intro q stored held same
  unfold isOccupied at free
  rw [List.any_eq_false] at free
  have apart := free q (List.mem_filter.mpr ⟨stored, by simpa using held⟩)
  apply Classical.byContradiction
  intro ne
  simp [ne, same] at apart

theorem allocation_error {p : Port} {pools : List PortPool} {ports : List Port}
    {e : AllocationError} (failed : p.allocation pools ports = .error e) {pool : PortPool}
    (listed : pool ∈ pools) (fit : Allocation.isEligible p.spec.classRef pool = true)
    (positive : 1 ≤ pool.spec.first) {n : UInt16} (within : pool.range.Contains n) :
    ∃ q ∈ ports, q.displayName ≠ p.displayName ∧ q.number = n := by
  have offered := Allocation.mem_eligible.mpr ⟨pool, listed, fit, rfl⟩
  have nothing := Allocation.allocate_error failed _ offered
  have taken := Allocation.lowestFree_none nothing positive within
  obtain ⟨q, held, is⟩ := List.any_eq_true.mp taken
  rw [Bool.and_eq_true, decide_eq_true_eq, decide_eq_true_eq] at is
  exact ⟨q, (List.mem_filter.mp held).1, is⟩

end Port
end HostPorts
