import HostPorts.Proofs.Allocation.Choice
import Mathlib.Data.List.FinRange

/-!
The allocator asked over and over, with what it gave out occupied from then on. It goes through all
numbers that are free in any of the ranges, from the lowest one up, and gives each under the first
offer that has it (`drained_in_order`). A range from 0 has nothing to give: it is passed over also
where it contains the number.
-/
namespace HostPorts

/-- What an offer has to give: the numbers of its range, unless that begins at 0. -/
def Offer.Has (o : Offer) (n : UInt16) : Prop := 1 ≤ o.range.first ∧ o.range.Contains n

instance (o : Offer) (n : UInt16) : Decidable (o.Has n) := inferInstanceAs (Decidable (_ ∧ _))

namespace Allocation

def IsFree (offers : List Offer) (occupied : UInt16 → Bool) (n : UInt16) : Prop :=
  occupied n = false ∧ ∃ o ∈ offers, o.Has n

def firstWith (offers : List Offer) (n : UInt16) : Option Offer := offers.find? fun o => o.Has n

def taken (occupied : UInt16 → Bool) : Except AllocationError Allocation → UInt16 → Bool
  | .ok a, n => n = a.port || occupied n
  | .error _, n => occupied n

/-- The answers to so many calls in a row. -/
def answers (className : String) (offers : List Offer) :
    Nat → (UInt16 → Bool) → List (Except AllocationError Allocation)
  | 0, _ => []
  | calls + 1, occupied =>
    let answer := allocate className offers occupied
    answer :: answers className offers calls (taken occupied answer)

variable {className : String} {offers seen : List Offer} {occupied : UInt16 → Bool} {o : Offer}
  {a : Allocation} {n : UInt16}

theorem lowestFreeFrom_least {start count : Nat} (fits : start + count ≤ 65536)
    (found : lowestFreeFrom occupied start count = some n) {m : UInt16} (above : start ≤ m.toNat)
    (below : m < n) : occupied m = true := by
  induction count generalizing start with
  | zero => contradiction
  | succ count ih =>
    rw [lowestFreeFrom] at found
    split at found
    next takenHere =>
      rcases Nat.eq_or_lt_of_le above with here | later
      · rwa [here, UInt16.ofNat_toNat] at takenHere
      · exact ih (by omega) found later
    next =>
      cases found
      rw [UInt16.lt_iff_toNat_lt, UInt16.toNat_ofNat_of_lt' (show start < 65536 by omega)] at below
      omega

theorem lowestFree_least {r : PortRange} (found : lowestFree occupied r = some n) {m : UInt16}
    (within : r.Contains m) (below : m < n) : occupied m = true := by
  unfold lowestFree at found
  split at found
  · contradiction
  · refine lowestFreeFrom_least ?_ found (UInt16.le_iff_toNat_le.mp within.1) below
    have := r.first.toNat_lt
    have := r.last.toNat_lt
    omega

theorem lowestFree_cases (occupied : UInt16 → Bool) (o : Offer) :
    (lowestFree occupied o.range = none ∧ ∀ n, o.Has n → occupied n = true) ∨
      ∃ n, lowestFree occupied o.range = some n ∧ o.Has n ∧ occupied n = false ∧
        ∀ m, o.Has m → occupied m = false → n ≤ m := by
  cases found : lowestFree occupied o.range with
  | none => exact Or.inl ⟨rfl, fun n has => lowestFree_none found has.1 has.2⟩
  | some n =>
    obtain ⟨positive, within, free⟩ := lowestFree_spec found
    refine Or.inr ⟨n, rfl, ⟨positive, within⟩, free, fun m has open_ => ?_⟩
    apply UInt16.not_lt.mp
    intro below
    rw [lowestFree_least found has.2 below] at open_
    contradiction

theorem isFree_append : IsFree (seen ++ [o]) occupied n ↔
    IsFree seen occupied n ∨ occupied n = false ∧ o.Has n := by
  simp only [IsFree, List.mem_append, List.mem_singleton]
  constructor
  · rintro ⟨free, offer, member | rfl, has⟩
    · exact Or.inl ⟨free, offer, member, has⟩
    · exact Or.inr ⟨free, has⟩
  · rintro (⟨free, offer, member, has⟩ | ⟨free, has⟩)
    · exact ⟨free, offer, Or.inl member, has⟩
    · exact ⟨free, o, Or.inr rfl, has⟩

/-- An allocation as it should be: the lowest free number, from the first offer that has it. -/
structure Lowest (offers : List Offer) (occupied : UInt16 → Bool) (a : Allocation) : Prop where
  free : IsFree offers occupied a.port
  least : ∀ n, IsFree offers occupied n → a.port ≤ n
  first : (firstWith offers a.port).map (·.name) = some a.pool

def Found (seen : List Offer) (occupied : UInt16 → Bool) : Option Allocation → Prop
  | none => ∀ n, ¬ IsFree seen occupied n
  | some a => Lowest seen occupied a

theorem firstWith_append :
    firstWith (seen ++ [o]) n = (firstWith seen n).or (if o.Has n then some o else none) := by
  rw [firstWith, List.find?_append, List.find?_singleton]
  simp [firstWith]

theorem firstWith_eq_none (free : occupied n = false) (not_ : ¬ IsFree seen occupied n) :
    firstWith seen n = none := by
  rw [firstWith, List.find?_eq_none]
  intro offer member has
  exact not_ ⟨free, offer, member, by simpa using has⟩

/-- A later offer replaces what was found only by a lower number. -/
theorem Found.next {best : Option Allocation} (h : Found seen occupied best) (o : Offer) :
    Found (seen ++ [o]) occupied (better occupied best o) := by
  rcases lowestFree_cases occupied o with ⟨nothing, full⟩ | ⟨n, found, has, free, least⟩
  · -- the offer has no free number, so the free numbers stay the same
    have same : ∀ m, IsFree (seen ++ [o]) occupied m ↔ IsFree seen occupied m := by
      intro m
      refine isFree_append.trans (or_iff_left ?_)
      rintro ⟨open_, has⟩
      rw [full m has] at open_
      contradiction
    simp only [better, nothing]
    cases best with
    | none => exact fun m => mt (same m).mp (h m)
    | some a =>
      refine ⟨(same _).mpr h.free, fun m open_ => h.least m ((same m).mp open_), ?_⟩
      obtain ⟨offer, is, name⟩ := Option.map_eq_some_iff.mp h.first
      simp [firstWith_append, is, name]
  · have new (lower : ∀ m, IsFree seen occupied m → n < m) :
        Lowest (seen ++ [o]) occupied ⟨n, o.name⟩ := by
      refine ⟨isFree_append.mpr (Or.inr ⟨free, has⟩), fun m open_ => ?_, ?_⟩
      · rcases isFree_append.mp open_ with before | ⟨open_, hasToo⟩
        · exact UInt16.le_of_lt (lower m before)
        · exact least m hasToo open_
      · have unseen := firstWith_eq_none free fun before => UInt16.lt_irrefl n (lower n before)
        simp [firstWith_append, unseen, has]
    simp only [better, found]
    cases best with
    | none => exact new fun m before => absurd before (h m)
    | some b =>
      simp only
      split
      next lower => exact new fun m before => UInt16.lt_of_lt_of_le lower (h.least m before)
      next notLower =>
        refine ⟨isFree_append.mpr (Or.inl h.free), fun m open_ => ?_, ?_⟩
        · rcases isFree_append.mp open_ with before | ⟨open_, hasToo⟩
          · exact h.least m before
          · exact UInt16.le_trans (UInt16.not_lt.mp notLower) (least m hasToo open_)
        · obtain ⟨offer, is, name⟩ := Option.map_eq_some_iff.mp h.first
          simp [firstWith_append, is, name]

theorem Found.foldl {best : Option Allocation} (h : Found seen occupied best)
    (offers : List Offer) :
    Found (seen ++ offers) occupied (offers.foldl (better occupied) best) := by
  induction offers generalizing seen best with
  | nil => rwa [List.append_nil]
  | cons o rest ih =>
    have all := ih (h.next o)
    rwa [List.append_assoc] at all

def refusal (className : String) (offers : List Offer) : AllocationError :=
  if offers = [] then .noEligiblePools className else .exhausted className

theorem allocate_cases (className : String) (offers : List Offer) (occupied : UInt16 → Bool) :
    (∃ a, allocate className offers occupied = .ok a ∧ Lowest offers occupied a) ∨
      allocate className offers occupied = .error (refusal className offers) ∧
        ∀ n, ¬ IsFree offers occupied n := by
  have start : Found [] occupied none := by simp [Found, IsFree]
  have found : Found offers occupied (offers.foldl (better occupied) none) := start.foldl offers
  unfold allocate refusal
  split
  next empty =>
    have none_ := List.isEmpty_iff.mp empty
    exact Or.inr ⟨by rw [if_pos none_], by simp [none_, IsFree]⟩
  next some_ =>
    split
    next a best =>
      rw [best] at found
      exact Or.inl ⟨a, rfl, found⟩
    next nothing =>
      rw [nothing] at found
      exact Or.inr ⟨by rw [if_neg (by simpa using some_)], found⟩

theorem allocate_noEligiblePools_iff :
    allocate className offers occupied = .error (.noEligiblePools className) ↔ offers = [] := by
  constructor
  · intro refused
    rcases allocate_cases className offers occupied with ⟨a, given, _⟩ | ⟨refused', _⟩
    · rw [given] at refused
      contradiction
    · rw [refused', refusal] at refused
      by_contra some_
      rw [if_neg some_] at refused
      cases refused
  · rintro rfl
    rfl

theorem mem_answers {calls : Nat} {answer : Except AllocationError Allocation}
    (member : answer ∈ answers className offers calls occupied) :
    ∃ occupied', answer = allocate className offers occupied' := by
  induction calls generalizing occupied with
  | zero => exact absurd member List.not_mem_nil
  | succ calls ih =>
    rcases List.mem_cons.mp member with is | later
    · exact ⟨occupied, is⟩
    · exact ih later

theorem isFree_taken (m : UInt16) :
    IsFree offers (taken occupied (.ok a)) m ↔ m ≠ a.port ∧ IsFree offers occupied m := by
  simp only [IsFree, taken, Bool.or_eq_false_iff, decide_eq_false_iff_not, and_assoc, ne_eq]

theorem answers_of_none_free (none_ : ∀ n, ¬ IsFree offers occupied n) (calls : Nat) :
    answers className offers calls occupied =
      List.replicate calls (.error (refusal className offers)) := by
  induction calls with
  | zero => rfl
  | succ calls ih =>
    rcases allocate_cases className offers occupied with ⟨a, _, lowest⟩ | ⟨refused, _⟩
    · exact absurd lowest.free (none_ a.port)
    · simp only [answers, refused, List.replicate_succ]
      exact congrArg _ ih

theorem answers_of_free (className : String) {numbers : List UInt16}
    (ascending : numbers.Pairwise (· < ·))
    (free_iff : ∀ n, n ∈ numbers ↔ IsFree offers occupied n) :
    ∃ given : List Allocation, given.map (·.port) = numbers ∧
      (∀ a ∈ given, (firstWith offers a.port).map (·.name) = some a.pool) ∧
      ∀ calls, answers className offers calls occupied =
        (given.map .ok).take calls ++
          List.replicate (calls - given.length) (.error (refusal className offers)) := by
  -- A call gives the head of the free numbers and leaves the tail.
  induction numbers generalizing occupied with
  | nil =>
    have none_ : ∀ n, ¬ IsFree offers occupied n := fun n =>
      mt (free_iff n).mpr List.not_mem_nil
    exact ⟨[], rfl, by simp, fun calls => by simp [answers_of_none_free none_]⟩
  | cons n rest ih =>
    obtain ⟨above, tail⟩ := List.pairwise_cons.mp ascending
    have free := (free_iff n).mp List.mem_cons_self
    rcases allocate_cases className offers occupied with ⟨a, answer, lowest⟩ | ⟨_, none_⟩
    · have head : a.port = n := by
        rcases List.mem_cons.mp ((free_iff a.port).mpr lowest.free) with is | later
        · exact is
        · exact absurd (above _ later) (UInt16.not_lt.mpr (lowest.least n free))
      have free_iff' : ∀ m, m ∈ rest ↔ IsFree offers (taken occupied (.ok a)) m := by
        intro m
        rw [isFree_taken, ← free_iff, List.mem_cons, head]
        constructor
        · intro later
          exact ⟨(UInt16.ne_of_lt (above m later)).symm, Or.inr later⟩
        · rintro ⟨other, is | later⟩
          · exact absurd is other
          · exact later
      obtain ⟨given, ports, first, rows⟩ := ih tail free_iff'
      refine ⟨a :: given, by rw [List.map_cons, head, ports], ?_, fun calls => ?_⟩
      · exact List.forall_mem_cons.mpr ⟨lowest.first, first⟩
      · cases calls with
        | zero => simp [answers]
        | succ calls => simp [answers, answer, rows]
    · exact absurd free (none_ n)

theorem exists_ascending (p : UInt16 → Prop) :
    ∃ numbers : List UInt16, numbers.Pairwise (· < ·) ∧ ∀ n, n ∈ numbers ↔ p n := by
  classical
  refine ⟨((List.finRange UInt16.size).map UInt16.ofFin).filter p, List.Pairwise.filter _ ?_, ?_⟩
  · rw [List.pairwise_map]
    exact (List.pairwise_lt_finRange UInt16.size).imp fun lt => UInt16.ofFin_lt_iff_lt.mpr lt
  · intro n
    simp only [List.mem_filter, List.mem_map, List.mem_finRange, true_and, decide_eq_true_eq]
    exact and_iff_right ⟨n.toFin, UInt16.ofFin_toFin n⟩

/-- Repeated calls give every free number exactly once and in increasing order, each under the
first offer that has it, and then refuse for ever; a call says that there are no pools just if there
are no offers. -/
theorem drained_in_order (className : String) (offers : List Offer) (occupied : UInt16 → Bool) :
    (∃ given : List Allocation,
      (given.map (·.port)).Pairwise (· < ·) ∧
      (∀ n, n ∈ given.map (·.port) ↔ IsFree offers occupied n) ∧
      (∀ a ∈ given, (firstWith offers a.port).map (·.name) = some a.pool) ∧
      ∀ calls, answers className offers calls occupied =
        (given.map .ok).take calls ++
          List.replicate (calls - given.length) (.error (refusal className offers))) ∧
    ∀ calls, ∀ answer ∈ answers className offers calls occupied,
      answer = .error (.noEligiblePools className) ↔ offers = [] := by
  constructor
  · obtain ⟨numbers, ascending, free_iff⟩ := exists_ascending (IsFree offers occupied)
    obtain ⟨given, rfl, first, rows⟩ := answers_of_free className ascending free_iff
    exact ⟨given, ascending, free_iff, first, rows⟩
  · intro calls answer member
    obtain ⟨occupied', rfl⟩ := mem_answers member
    exact allocate_noEligiblePools_iff

def offersFromZero : List Offer := [⟨"z", ⟨0, 10⟩⟩, ⟨"a", ⟨5, 5⟩⟩]

/-- A number is given under the second of two offers, though the range of the first, which begins at
0, contains it too. -/
theorem range_from_zero_passed_over :
    IsFree offersFromZero (fun _ => false) 5 ∧
      (offersFromZero.find? fun o => o.range.Contains 5).map (·.name) = some "z" ∧
      answers "c" offersFromZero 2 (fun _ => false) = [.ok ⟨5, "a"⟩, .error (.exhausted "c")] := by
  refine ⟨⟨rfl, ⟨"a", ⟨5, 5⟩⟩, by simp [offersFromZero], by decide⟩, by decide, by decide⟩

end Allocation
end HostPorts
