import HostPorts.Proofs.Admission.Annotations
import HostPorts.Retry
import Mathlib.Data.Nat.Fib.Basic

/-!
Delays of retries. The backoff of an object keeps two capped numbers of 64 bits and knows nothing of
a sequence; but after some errors in a row these are neighbours among the multiples of the Fibonacci
numbers, each capped once (`Backoff.next_after`). The log keeps them by key, and keys tell objects
apart, so over any history the delay of an object depends on nothing but its own errors since its
own last success (`retry_delays`).
-/
namespace HostPorts

namespace Text

theorem readDigits_le {limit value n : Nat} {chars : List Char} (small : value ≤ limit)
    (reads : readDigits limit value chars = .ok n) : n ≤ limit := by
  induction chars generalizing value with
  | nil =>
    cases reads
    exact small
  | cons c rest ih =>
    simp only [readDigits] at reads
    split at reads
    · split at reads
      · contradiction
      next fits => exact ih (Nat.le_of_not_lt fits) reads
    · contradiction

theorem readNatural_le {limit n : Nat} {chars : List Char}
    (reads : readNatural limit chars = .ok n) : n ≤ limit := by
  unfold readNatural at reads
  split at reads
  · contradiction
  · contradiction
  · exact readDigits_le (Nat.zero_le _) reads
  · exact readDigits_le (Nat.zero_le _) reads

end Text

theorem bind_eq_ok {ε α β : Type} {x : Except ε α} {f : α → Except ε β} {b : β}
    (ok : x >>= f = .ok b) : ∃ a, x = .ok a ∧ f a = .ok b := by
  cases x with
  | error => contradiction
  | ok a => exact ⟨a, rfl, ok⟩

namespace Config

variable {lookup : String → Option String} {config : Config}

theorem setting_seconds_le {name : String} {default n : Nat} (small : default ≤ Backoff.ceiling)
    (reads : setting lookup name default seconds = .ok n) : n ≤ Backoff.ceiling := by
  unfold setting at reads
  split at reads
  · cases reads
    exact small
  next raw _ =>
    unfold seconds natural at reads
    cases value : Text.readNatural 18446744073709551615 (Text.trim raw.toList) with
    | error e => simp [value, Except.mapError] at reads
    | ok m =>
      simp only [value, Except.mapError, Except.ok.injEq] at reads
      subst reads
      exact Text.readNatural_le value

theorem bounds_of_readBackoff {least greatest : Nat}
    (reads : readBackoff lookup = .ok (least, greatest)) :
    0 < least ∧ least ≤ greatest ∧ greatest ≤ Backoff.ceiling := by
  obtain ⟨least', first, reads⟩ := bind_eq_ok reads
  obtain ⟨greatest', second, reads⟩ := bind_eq_ok reads
  have fits := setting_seconds_le (by decide) second
  split at reads
  · contradiction
  next ordered =>
    cases reads
    omega

theorem bounds_of_read (accepted : Config.read lookup = .ok config) :
    0 < config.backoffMin ∧ config.backoffMin ≤ config.backoffMax ∧
      config.backoffMax ≤ Backoff.ceiling := by
  obtain ⟨annotations, _, accepted⟩ := bind_eq_ok accepted
  obtain ⟨tls, _, accepted⟩ := bind_eq_ok accepted
  obtain ⟨bounds, reads, accepted⟩ := bind_eq_ok accepted
  obtain ⟨enabled, _, accepted⟩ := bind_eq_ok accepted
  obtain ⟨address, _, accepted⟩ := bind_eq_ok accepted
  obtain ⟨concurrency, _, accepted⟩ := bind_eq_ok accepted
  obtain ⟨conflict, _, accepted⟩ := bind_eq_ok accepted
  cases accepted
  exact bounds_of_readBackoff reads

end Config

namespace Backoff

def after (least greatest errors : Nat) : Backoff where
  previous := min (Nat.fib errors * least) greatest
  current := min (Nat.fib (errors + 1) * least) greatest
  greatest := greatest

theorem after_zero {least greatest : Nat} (ordered : least ≤ greatest) :
    after least greatest 0 = start least greatest := by
  simp [after, start, Nat.min_eq_left ordered]

/-- Capping the sum of capped numbers is capping their sum, and what is cut off at 64 bits would be
capped anyway. -/
theorem next_after {least greatest : Nat} (fits : greatest ≤ ceiling) (errors : Nat) :
    (after least greatest errors).next =
      (min (Nat.fib (errors + 1) * least) greatest, after least greatest (errors + 1)) := by
  have sum : Nat.fib (errors + 2) * least =
      Nat.fib errors * least + Nat.fib (errors + 1) * least := by
    rw [Nat.fib_add_two, Nat.add_mul]
  have current : min (min (min (Nat.fib errors * least) greatest +
      min (Nat.fib (errors + 1) * least) greatest) ceiling) greatest =
      min (Nat.fib (errors + 2) * least) greatest := by
    rw [sum]
    generalize Nat.fib errors * least = x
    generalize Nat.fib (errors + 1) * least = y
    omega
  simp only [next, after, current]

theorem delay_bounds {least greatest : Nat} (ordered : least ≤ greatest) {errors : Nat}
    (positive : 0 < errors) :
    least ≤ min (Nat.fib errors * least) greatest ∧
      min (Nat.fib errors * least) greatest ≤ greatest := by
  have some_ : 1 * least ≤ Nat.fib errors * least :=
    Nat.mul_le_mul_right _ (Nat.fib_pos.mpr positive)
  omega

theorem delay_mono {least greatest errors errors' : Nat} (le : errors ≤ errors') :
    min (Nat.fib errors * least) greatest ≤ min (Nat.fib errors' * least) greatest := by
  have more := Nat.mul_le_mul_right least (Nat.fib_mono le)
  omega

end Backoff

structure PassEnd where
  kind : String
  namespace_ : Option String
  name : String
  outcome : Except ControllerError Unit

namespace PassEnd

def key (e : PassEnd) : String := resourceKey e.kind e.namespace_ e.name

/-- Of the same object. To be cluster-wide is to be in the namespace without a name. -/
def SameObject (e e' : PassEnd) : Prop :=
  e.kind = e'.kind ∧ e.namespace_.getD "" = e'.namespace_.getD "" ∧ e.name = e'.name

instance (e e' : PassEnd) : Decidable (e.SameObject e') := inferInstanceAs (Decidable (_ ∧ _))

def succeeds (e : PassEnd) : Bool := e.outcome matches .ok ()

def conflicts (e : PassEnd) : Bool :=
  match e.outcome with
  | .ok () => false
  | .error cause => cause.isConflict

def fails (e : PassEnd) : Bool :=
  match e.outcome with
  | .ok () => false
  | .error cause => !cause.isConflict

structure Slashless (e : PassEnd) : Prop where
  kind : '/' ∉ e.kind.toList
  namespace_ : '/' ∉ (e.namespace_.getD "").toList

instance (e : PassEnd) : Decidable e.Slashless :=
  decidable_of_iff ('/' ∉ e.kind.toList ∧ '/' ∉ (e.namespace_.getD "").toList)
    ⟨fun h => ⟨h.1, h.2⟩, fun h => ⟨h.kind, h.namespace_⟩⟩

variable {e e' : PassEnd} {past later : List PassEnd}

theorem succeeds_or_conflicts_or_fails (e : PassEnd) :
    e.succeeds = true ∨ (e.succeeds = false ∧ e.conflicts = true ∧ e.fails = false) ∨
      (e.succeeds = false ∧ e.fails = true) := by
  cases is : e.outcome with
  | ok => simp [succeeds, is]
  | error cause =>
    cases conflict : cause.isConflict <;> simp [succeeds, conflicts, fails, is, conflict]

theorem succeeds_of_fails (failure : e.fails = true) : e.succeeds = false := by
  cases is : e.outcome with
  | ok => simp [fails, is] at failure
  | error => simp [succeeds, is]

theorem key_eq_iff (slashless : e.Slashless) (slashless' : e'.Slashless) :
    e.key = e'.key ↔ e.SameObject e' := by
  have regroup (kind namespace_ name : String) :
      kind ++ "/" ++ namespace_ ++ "/" ++ name = kind ++ "/" ++ (namespace_ ++ "/" ++ name) := by
    simp only [String.append_assoc]
  constructor
  · intro same
    rw [key, key, resourceKey, resourceKey, regroup, regroup] at same
    obtain ⟨kind, rest⟩ := slash_parts slashless.kind slashless'.kind same
    obtain ⟨namespace_, name⟩ := slash_parts slashless.namespace_ slashless'.namespace_ rest
    exact ⟨kind, namespace_, name⟩
  · rintro ⟨kind, namespace_, name⟩
    rw [key, key, resourceKey, resourceKey, kind, namespace_, name]

theorem SameObject.refl (e : PassEnd) : e.SameObject e := ⟨rfl, rfl, rfl⟩

theorem SameObject.symm (h : e.SameObject e') : e'.SameObject e :=
  ⟨h.1.symm, h.2.1.symm, h.2.2.symm⟩

theorem SameObject.trans {x : PassEnd} (h : x.SameObject e) (h' : e.SameObject e') :
    x.SameObject e' :=
  ⟨h.1.trans h'.1, h.2.1.trans h'.2.1, h.2.2.trans h'.2.2⟩

def errorsInARow (e : PassEnd) (past : List PassEnd) : Nat :=
  ((past.reverse.filter (·.SameObject e)).takeWhile (!·.succeeds)).countP fails

def errorsOf (e : PassEnd) (history : List PassEnd) : Nat :=
  (history.filter (·.SameObject e)).countP fails

theorem errorsInARow_other (other : ¬ e'.SameObject e) :
    errorsInARow e (past ++ [e']) = errorsInARow e past := by
  simp [errorsInARow, other]

theorem errorsInARow_success (same : e'.SameObject e) (success : e'.succeeds = true) :
    errorsInARow e (past ++ [e']) = 0 := by
  simp [errorsInARow, same, success]

theorem errorsInARow_failure (same : e'.SameObject e) (failure : e'.succeeds = false) :
    errorsInARow e (past ++ [e']) = errorsInARow e past + if e'.fails then 1 else 0 := by
  simp [errorsInARow, same, failure, List.countP_cons]

theorem errorsInARow_le_errorsOf (e : PassEnd) (past : List PassEnd) :
    errorsInARow e past ≤ errorsOf e past := by
  have part := (List.takeWhile_sublist (!·.succeeds)
    (l := past.reverse.filter (·.SameObject e))).countP_le (p := fails)
  have all : (past.reverse.filter (·.SameObject e)).countP fails = errorsOf e past := by
    rw [errorsOf, List.filter_reverse, List.countP_reverse]
  exact part.trans_eq all

theorem errorsOf_le (e : PassEnd) : errorsOf e past ≤ errorsOf e (past ++ later) := by
  simp [errorsOf]

theorem errorsInARow_lt {n : Nat} (same : e'.SameObject e) (failure : e'.fails = true)
    (few : e.errorsOf (past ++ [e']) < n) : e.errorsInARow past + 1 < n := by
  have once : e.errorsOf (past ++ [e']) = e.errorsOf past + 1 := by
    simp [errorsOf, same, failure]
  have row := e.errorsInARow_le_errorsOf past
  omega

theorem errorsInARow_congr (same : e'.SameObject e) :
    errorsInARow e past = errorsInARow e' past := by
  have alike (x : PassEnd) : x.SameObject e ↔ x.SameObject e' :=
    ⟨fun h => h.trans same.symm, fun h => h.trans same⟩
  simp only [errorsInARow, alike]

theorem errorsInARow_mono (unbroken : ∀ x ∈ later, x.SameObject e → x.succeeds = false) :
    errorsInARow e past ≤ errorsInARow e (past ++ later) := by
  have all : ∀ x ∈ later.reverse.filter (·.SameObject e), (!x.succeeds) = true := by
    intro x among
    rw [List.mem_filter, List.mem_reverse, decide_eq_true_eq] at among
    simp [unbroken x among.1 among.2]
  rw [errorsInARow, errorsInARow, List.reverse_append, List.filter_append,
    List.takeWhile_append_of_pos all, List.countP_append]
  exact Nat.le_add_left _ _

end PassEnd

namespace FailureLog

variable {lookup : String → Option String} {config : Config} {log : FailureLog}
  {past : List PassEnd} {e : PassEnd}

def after (config : Config) (history : List PassEnd) : FailureLog :=
  history.foldl (fun log e => (conclude config log e.key e.outcome).2) SortedMap.empty

theorem after_snoc : after config (past ++ [e]) =
    (conclude config (after config past) e.key e.outcome).2 := by
  rw [after, List.foldl_append]
  rfl

def retry (config : Config) (past : List PassEnd) (e : PassEnd) : Retry :=
  (conclude config (after config past) e.key e.outcome).1

theorem conclude_of_conflicts (conflict : e.conflicts = true) :
    conclude config log e.key e.outcome = (.afterConflict config.conflictRequeue, log) := by
  unfold PassEnd.conflicts at conflict
  split at conflict
  · contradiction
  next cause is => simp [conclude, is, conflict]

theorem conclude_of_fails (failure : e.fails = true) :
    conclude config log e.key e.outcome =
      (.afterErrors (fail config log e.key).1.1 (fail config log e.key).1.2,
        (fail config log e.key).2) := by
  unfold PassEnd.fails at failure
  split at failure
  · contradiction
  next cause is =>
    have other : cause.isConflict = false := by simpa using failure
    simp [conclude, is, other]

theorem recordOf_of_succeeds (success : e.succeeds = true) :
    recordOf config (conclude config log e.key e.outcome).2 e.key =
      ⟨Backoff.start config.backoffMin config.backoffMax, 0⟩ := by
  cases is : e.outcome with
  | ok => simp [conclude, recordOf, succeed]
  | error => simp [PassEnd.succeeds, is] at success

theorem recordOf_conclude_ne {key key' : String} {outcome : Except ControllerError Unit}
    (other : key' ≠ key) :
    recordOf config (conclude config log key outcome).2 key' = recordOf config log key' := by
  unfold conclude
  split
  · simp [recordOf, succeed, other]
  · split
    · rfl
    · simp [recordOf, fail, other]

theorem recordOf_fail {key : String} :
    recordOf config (fail config log key).2 key =
      ⟨(recordOf config log key).backoff.next.2, (fail config log key).1.2⟩ := by
  simp [recordOf, fail]

/-- The log holds, for each object, its errors in a row and the backoff after so many. -/
theorem recordOf_after (ordered : config.backoffMin ≤ config.backoffMax)
    (fits : config.backoffMax ≤ Backoff.ceiling) (slashless : e.Slashless)
    (slashless' : ∀ x ∈ past, x.Slashless) (few : e.errorsOf past < 4294967296) :
    recordOf config (after config past) e.key =
      ⟨Backoff.after config.backoffMin config.backoffMax (e.errorsInARow past),
        e.errorsInARow past⟩ := by
  -- on the history from its end: the last pass is of this object or does not concern its key
  induction past using List.reverseRecOn with
  | nil =>
    simp only [recordOf, after, List.foldl_nil, SortedMap.find_empty, Option.getD_none,
      PassEnd.errorsInARow, List.reverse_nil, List.filter_nil, List.takeWhile_nil, List.countP_nil,
      Backoff.after_zero ordered]
  | append_singleton past x ih =>
    have ih := ih (fun y among => slashless' y (List.mem_append_left _ among))
      (e.errorsOf_le.trans_lt few)
    have keys := PassEnd.key_eq_iff (slashless' x (by simp)) slashless
    rw [after_snoc]
    by_cases same : x.SameObject e
    · rw [← keys.mpr same] at ih ⊢
      rcases x.succeeds_or_conflicts_or_fails with success | ⟨unbroken, conflict, no⟩ |
        ⟨unbroken, failure⟩
      · rw [PassEnd.errorsInARow_success same success, recordOf_of_succeeds success,
          Backoff.after_zero ordered]
      · rw [conclude_of_conflicts conflict, ih, PassEnd.errorsInARow_failure same unbroken, no]
        rfl
      · have small := PassEnd.errorsInARow_lt same failure few
        rw [conclude_of_fails failure, recordOf_fail, PassEnd.errorsInARow_failure same unbroken,
          failure, if_pos rfl]
        simp only [fail, ih, Backoff.next_after fits, Nat.mod_eq_of_lt small]
    · rw [recordOf_conclude_ne (fun key => same (keys.mp key.symm)), ih,
        PassEnd.errorsInARow_other same]

theorem retry_of_fails (accepted : Config.read lookup = .ok config) (failure : e.fails = true)
    (slashless : e.Slashless) (slashless' : ∀ x ∈ past, x.Slashless)
    (few : e.errorsOf (past ++ [e]) < 4294967296) :
    retry config past e = .afterErrors
      (min (Nat.fib (e.errorsInARow past + 1) * config.backoffMin) config.backoffMax)
      (e.errorsInARow past + 1) := by
  obtain ⟨_, ordered, fits⟩ := Config.bounds_of_read accepted
  have small := PassEnd.errorsInARow_lt (.refl e) failure few
  have before := e.errorsOf_le.trans_lt few
  have record := recordOf_after ordered fits slashless slashless' before
  simp only [retry, conclude_of_fails failure, fail, record, Backoff.next_after fits,
    Nat.mod_eq_of_lt small]

end FailureLog

open FailureLog in
/-- Over any history of ended passes a conflict is retried after the fixed delay and leaves the log
as it was. The error that is the `j`th of its object in a row is retried after `fib j` times the
least delay, capped at the greatest, and reports `j`, whatever happened to other objects. So every
such delay lies between the bounds, and until the object succeeds none is less than one before. -/
theorem retry_delays {lookup : String → Option String} {config : Config}
    (accepted : Config.read lookup = .ok config) {history : List PassEnd}
    (slashless : ∀ e ∈ history, e.Slashless)
    (few : ∀ e ∈ history, e.errorsOf history < 4294967296) :
    (∀ past e later, history = past ++ e :: later →
      (e.conflicts = true →
        retry config past e = .afterConflict config.conflictRequeue ∧
        after config (past ++ [e]) = after config past) ∧
      (e.fails = true → ∃ seconds,
        retry config past e = .afterErrors seconds (e.errorsInARow past + 1) ∧
        seconds = min (Nat.fib (e.errorsInARow past + 1) * config.backoffMin) config.backoffMax ∧
        config.backoffMin ≤ seconds ∧ seconds ≤ config.backoffMax)) ∧
    ∀ past e between e' later, history = past ++ e :: between ++ e' :: later →
      e.fails = true → e'.fails = true → e'.SameObject e →
      (∀ x ∈ between, x.SameObject e → x.succeeds = false) →
      ∃ seconds errors seconds' errors',
        retry config past e = .afterErrors seconds errors ∧
        retry config (past ++ e :: between) e' = .afterErrors seconds' errors' ∧
        seconds ≤ seconds' := by
  obtain ⟨_, ordered, _⟩ := Config.bounds_of_read accepted
  have delay {past : List PassEnd} {e : PassEnd} {later : List PassEnd}
      (split : history = past ++ e :: later) (failure : e.fails = true) :
      retry config past e = .afterErrors
        (min (Nat.fib (e.errorsInARow past + 1) * config.backoffMin) config.backoffMax)
        (e.errorsInARow past + 1) := by
    have split' : history = (past ++ [e]) ++ later := by simpa using split
    have before (x : PassEnd) (among : x ∈ past ++ [e]) : x ∈ history :=
      split' ▸ List.mem_append_left later among
    apply retry_of_fails accepted failure (slashless e (before e (by simp)))
    · exact fun x among => slashless x (before x (List.mem_append_left _ among))
    · have all := few e (before e (by simp))
      rw [split'] at all
      exact e.errorsOf_le.trans_lt all
  constructor
  · intro past e later split
    constructor
    · intro conflict
      rw [after_snoc, retry, conclude_of_conflicts conflict]
      exact ⟨rfl, rfl⟩
    · intro failure
      exact ⟨_, delay split failure, rfl, Backoff.delay_bounds ordered (Nat.succ_pos _)⟩
  · intro past e between e' later split failure failure' same unbroken
    refine ⟨_, _, _, _, delay (by simpa using split) failure, delay split failure', ?_⟩
    have row : e.errorsInARow past ≤ e'.errorsInARow (past ++ e :: between) := by
      rw [← PassEnd.errorsInARow_congr same]
      apply PassEnd.errorsInARow_mono
      intro x among ofIt
      rcases List.mem_cons.mp among with rfl | among
      · exact PassEnd.succeeds_of_fails failure
      · exact unbroken x among ofIt
    exact Backoff.delay_mono (Nat.succ_le_succ row)

def nearCeiling : String → Option String
  | "BACKOFF_MIN_SECONDS" => some "9223372036854775807"
  | "BACKOFF_MAX_SECONDS" => some "18446744073709551615"
  | _ => none

def portEnds (outcome : Except ControllerError Unit) : PassEnd :=
  ⟨"Port", some "web", "http", outcome⟩

def poolEnds (outcome : Except ControllerError Unit) : PassEnd :=
  ⟨"PortPool", none, "edge", outcome⟩

open FailureLog in
theorem retry_delays_near_ceiling :
    let error : Except ControllerError Unit := .error (.missingField "Port http" "status")
    let conflict : Except ControllerError Unit := .error (.store (.conflict .port "http"))
    let past := [portEnds error, poolEnds error, portEnds error, portEnds conflict, portEnds error]
    let history := past ++ [portEnds error]
    ∃ config, Config.read nearCeiling = .ok config ∧
      (∀ e ∈ history, e.Slashless) ∧ (∀ e ∈ history, e.errorsOf history < 4294967296) ∧
      ∃ seconds, retry config past (portEnds error) = .afterErrors seconds 4 ∧
        seconds = 18446744073709551615 := by
  intro error conflict past history
  obtain ⟨config, accepted, least, greatest⟩ : ∃ config, Config.read nearCeiling = .ok config ∧
      config.backoffMin = 9223372036854775807 ∧ config.backoffMax = 18446744073709551615 :=
    ⟨_, rfl, rfl, rfl⟩
  have slashless : ∀ e ∈ history, e.Slashless := by decide
  have few : ∀ e ∈ history, e.errorsOf history < 4294967296 := by decide
  refine ⟨config, accepted, slashless, few, ?_⟩
  obtain ⟨seconds, due, closed, _⟩ := ((retry_delays accepted slashless few).1 past _ [] rfl).2 rfl
  have row : (portEnds error).errorsInARow past = 3 := by decide
  rw [row] at due closed
  refine ⟨seconds, due, ?_⟩
  rw [closed, least, greatest]
  decide

end HostPorts
