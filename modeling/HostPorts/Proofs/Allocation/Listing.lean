import HostPorts.Proofs.Allocation.Choice
import HostPorts.Proofs.Text.ByteOrder
import Mathlib.Data.List.Sort

/-!
The order in which a store lists its pools does not matter to the allocator, nor do the pools that
it may not use: what it may use is put into strictly increasing order of names, and there is only
one such order (`choice_independent`).
-/
namespace HostPorts

/-- As a store lists pools: each has a name, and no two have the same. -/
structure PortPool.Listing (pools : List PortPool) : Prop where
  named : ∀ p ∈ pools, p.metadata.name ≠ none
  distinct : pools.Pairwise fun p q => p.metadata.name ≠ q.metadata.name

structure PortPool.Serves (className : String) (p : PortPool) : Prop where
  class_ : p.spec.classRef = className
  enabled : p.spec.enabled = true
  settled : p.phase = some .settled
  live : p.isBeingDeleted = false

namespace Allocation

variable {className : String} {pools pools' : List PortPool} {new : Offer} {offers : List Offer}

def Ascending (offers : List Offer) : Prop := offers.Pairwise fun a b => a.name < b.name

theorem isEligible_iff {p : PortPool} :
    isEligible className p = true ↔ p.Serves className ∧ p.displayName ≠ "" := by
  simp only [isEligible, Bool.and_eq_true, decide_eq_true_eq, Bool.not_eq_true']
  constructor
  · rintro ⟨⟨⟨⟨class_, enabled⟩, settled⟩, live⟩, called⟩
    exact ⟨⟨class_, enabled, settled, live⟩, called⟩
  · rintro ⟨⟨class_, enabled, settled, live⟩, called⟩
    exact ⟨⟨⟨⟨class_, enabled⟩, settled⟩, live⟩, called⟩

theorem Ascending.insertOffer (h : Ascending offers) (apart : ∀ o ∈ offers, new.name ≠ o.name) :
    Ascending (insertOffer new offers) := by
  induction offers with
  | nil => exact List.pairwise_singleton _ _
  | cons head rest ih =>
    obtain ⟨above, tail⟩ := List.pairwise_cons.mp h
    obtain ⟨other, others⟩ := List.forall_mem_cons.mp apart
    rw [Allocation.insertOffer]
    split
    next before =>
      refine List.pairwise_cons.mpr ⟨List.forall_mem_cons.mpr ⟨before, fun o among => ?_⟩, h⟩
      exact String.lt_trans before (above o among)
    next notBefore =>
      have after := key_lt_of_not_lt_of_ne notBefore other
      refine List.pairwise_cons.mpr ⟨fun o among => ?_, ih tail others⟩
      rcases mem_insertOffer.mp among with rfl | among
      · exact after
      · exact above o among

theorem ascending_sortOffers (apart : offers.Pairwise fun a b => a.name ≠ b.name) :
    Ascending (sortOffers offers) := by
  have folded : ∀ sorted, Ascending sorted → (∀ o ∈ offers, ∀ s ∈ sorted, o.name ≠ s.name) →
      Ascending (offers.foldl (fun sorted offer => insertOffer offer sorted) sorted) := by
    induction offers with
    | nil => exact fun _ ascending _ => ascending
    | cons head rest ih =>
      obtain ⟨others, tail⟩ := List.pairwise_cons.mp apart
      intro sorted ascending fresh
      obtain ⟨here, later⟩ := List.forall_mem_cons.mp fresh
      refine ih tail _ (ascending.insertOffer here) fun o among s member => ?_
      rcases mem_insertOffer.mp member with rfl | before
      · exact (others o among).symm
      · exact later o among s before
  exact folded [] List.Pairwise.nil (by simp)

theorem name_offerOf_ne {p q : PortPool} (named : p.metadata.name ≠ none)
    (named' : q.metadata.name ≠ none) (apart : p.metadata.name ≠ q.metadata.name) :
    (offerOf p).name ≠ (offerOf q).name := by
  obtain ⟨name, is⟩ := Option.ne_none_iff_exists'.mp named
  obtain ⟨name', is'⟩ := Option.ne_none_iff_exists'.mp named'
  rw [is, is'] at apart
  simpa [offerOf, is, is'] using apart

theorem ascending_eligible (listing : PortPool.Listing pools) (className : String) :
    Ascending (eligible pools className) := by
  apply ascending_sortOffers
  rw [List.pairwise_map]
  refine (listing.distinct.filter _).imp_of_mem fun {p q} first second apart => ?_
  exact name_offerOf_ne (listing.named p (List.mem_of_mem_filter first))
    (listing.named q (List.mem_of_mem_filter second)) apart

theorem Ascending.eq_of_mem_iff {offers' : List Offer} (h : Ascending offers)
    (h' : Ascending offers') (same : ∀ o, o ∈ offers ↔ o ∈ offers') : offers = offers' := by
  have : Std.Irrefl fun a b : Offer => a.name < b.name := ⟨fun a => String.lt_irrefl a.name⟩
  have : Std.Antisymm fun a b : Offer => a.name < b.name :=
    ⟨fun _ _ lt gt => absurd (String.lt_trans lt gt) (String.lt_irrefl _)⟩
  exact List.Pairwise.eq_of_mem_iff h h' same

theorem mem_eligible_congr (same : ∀ p : PortPool, p.Serves className → (p ∈ pools ↔ p ∈ pools'))
    (o : Offer) : o ∈ eligible pools className ↔ o ∈ eligible pools' className := by
  have sub : ∀ p, isEligible className p = true → (p ∈ pools ↔ p ∈ pools') := fun p fit =>
    same p (isEligible_iff.mp fit).1
  rw [mem_eligible, mem_eligible]
  constructor
  · rintro ⟨p, listed, fit, is⟩
    exact ⟨p, (sub p fit).mp listed, fit, is⟩
  · rintro ⟨p, listed, fit, is⟩
    exact ⟨p, (sub p fit).mpr listed, fit, is⟩

/-- Two listings with the same pools that serve a class, in whatever order and among whatever other
pools, give the same offers, in strictly increasing order of the bytes of their names, and so the
same answer for any occupied numbers. -/
theorem choice_independent {className : String} {pools pools' : List PortPool}
    (listing : PortPool.Listing pools) (listing' : PortPool.Listing pools')
    (same : ∀ p : PortPool, p.Serves className → (p ∈ pools ↔ p ∈ pools')) :
    eligible pools className = eligible pools' className ∧
      (∀ occupied, allocate className (eligible pools className) occupied =
        allocate className (eligible pools' className) occupied) ∧
      (eligible pools className).Pairwise fun a b => Text.bytes a.name < Text.bytes b.name := by
  have ascending := ascending_eligible listing className
  have equal : eligible pools className = eligible pools' className :=
    ascending.eq_of_mem_iff (ascending_eligible listing' className) (mem_eligible_congr same)
  refine ⟨equal, fun occupied => by rw [equal], ?_⟩
  exact ascending.imp fun lt => (Text.lt_iff_bytes_lt _ _).mp lt

def settledPool (className name : String) (first last : UInt16) (enabled : Bool) : PortPool :=
  ⟨{ name := some name }, ⟨className, first, last, enabled⟩, some { phase := some .settled }⟩

def someListing : List PortPool :=
  [settledPool "c" "é" 5000 5009 true, settledPool "c" "b" 4000 4009 false,
    settledPool "c" "a" 5000 5004 true]

def otherListing : List PortPool :=
  [settledPool "c" "a" 5000 5004 true, settledPool "d" "b" 4000 4009 true,
    settledPool "c" "é" 5000 5009 true]

theorem choice_independent_shuffled :
    PortPool.Listing someListing ∧ PortPool.Listing otherListing ∧
      (∀ p : PortPool, p.Serves "c" → (p ∈ someListing ↔ p ∈ otherListing)) ∧
      eligible someListing "c" = eligible otherListing "c" ∧
      allocate "c" (eligible someListing "c") (fun _ => false) = .ok ⟨5000, "a"⟩ := by
  have listing : PortPool.Listing someListing := ⟨by decide, by decide⟩
  have listing' : PortPool.Listing otherListing := ⟨by decide, by decide⟩
  have same : ∀ p : PortPool, p.Serves "c" → (p ∈ someListing ↔ p ∈ otherListing) := by
    intro p serves
    simp only [someListing, otherListing, List.mem_cons, List.not_mem_nil, or_false]
    constructor
    · rintro (rfl | rfl | rfl)
      · exact Or.inr (Or.inr rfl)
      · exact absurd serves.enabled (by decide)
      · exact Or.inl rfl
    · rintro (rfl | rfl | rfl)
      · exact Or.inr (Or.inr rfl)
      · exact absurd serves.class_ (by decide)
      · exact Or.inl rfl
  obtain ⟨equal, answers, _⟩ := choice_independent listing listing' same
  refine ⟨listing, listing', same, equal, ?_⟩
  rw [answers]
  decide

end Allocation
end HostPorts
