import HostPorts.Error
import HostPorts.Overlap

/-!
Which port an object gets: the lowest free number over all ranges it may draw from, and of two
ranges that offer it the earlier one.
-/
namespace HostPorts

structure Offer where
  name : String
  range : PortRange
  deriving DecidableEq

structure Allocation where
  port : UInt16
  pool : String
  deriving DecidableEq

namespace Allocation

def insertOffer (offer : Offer) : List Offer → List Offer
  | [] => [offer]
  | o :: rest => if offer.name < o.name then offer :: o :: rest else o :: insertOffer offer rest

/-- Equal names keep their order. -/
def sortOffers (offers : List Offer) : List Offer :=
  offers.foldl (fun sorted offer => insertOffer offer sorted) []

def isEligible (className : String) (p : PortPool) : Bool :=
  p.spec.classRef = className && p.spec.enabled && p.phase = some .settled &&
    !p.isBeingDeleted && p.displayName ≠ ""

def offerOf (p : PortPool) : Offer := ⟨p.metadata.name.getD "", p.range⟩

/-- The offers of a class in the order of their names, which breaks ties. -/
def eligible (pools : List PortPool) (className : String) : List Offer :=
  sortOffers ((pools.filter (isEligible className)).map offerOf)

def lowestFreeFrom (occupied : UInt16 → Bool) (n : Nat) : Nat → Option UInt16
  | 0 => none
  | count + 1 =>
    if occupied (UInt16.ofNat n) then lowestFreeFrom occupied (n + 1) count
    else some (UInt16.ofNat n)

/-- A range from 0 offers nothing, nor does one whose ends are the wrong way round. -/
def lowestFree (occupied : UInt16 → Bool) (r : PortRange) : Option UInt16 :=
  if r.first = 0 then none
  else lowestFreeFrom occupied r.first.toNat (r.last.toNat + 1 - r.first.toNat)

def better (occupied : UInt16 → Bool) (best : Option Allocation) (offer : Offer) :
    Option Allocation :=
  match lowestFree occupied offer.range with
  | none => best
  | some port =>
    match best with
    | none => some ⟨port, offer.name⟩
    | some b => if port < b.port then some ⟨port, offer.name⟩ else some b

def allocate (className : String) (offers : List Offer) (occupied : UInt16 → Bool) :
    Except AllocationError Allocation :=
  if offers.isEmpty then .error (.noEligiblePools className)
  else
    match offers.foldl (better occupied) none with
    | some a => .ok a
    | none => .error (.exhausted className)

end Allocation
end HostPorts
