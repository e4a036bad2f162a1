import HostPorts.Condition

/-!
The list of conditions as a map in the order of its keys' arrival, told from the history of calls on
it: which types it holds, in which order, what it says of each, and since when
(`ledger_of_history`). Histories are listed with the latest call first.
-/
namespace HostPorts.Conditions

def types (conditions : Conditions) : List String := conditions.map (·.type)

def entered (now : Timestamp) (new : Condition) : Option Condition → Condition
  | none => { new with lastTransition := some (new.lastTransition.getD now) }
  | some held => revise now held new

variable {conditions : Conditions} {now : Timestamp} {new held : Condition}

theorem find_eq_none_iff {type : String} :
    conditions.find? type = none ↔ type ∉ conditions.types := by
  simp [find?, types]

theorem set_cases (now : Timestamp) (conditions : Conditions) (new : Condition) :
    (new.type ∉ conditions.types ∧
        conditions.set now new = (true, conditions ++ [entered now new none])) ∨
      ∃ before held after, conditions = before ++ held :: after ∧ held.type = new.type ∧
        new.type ∉ types before ∧
        conditions.set now new =
          (differs held new, before ++ entered now new (some held) :: after) := by
  induction conditions with
  | nil => exact Or.inl ⟨List.not_mem_nil, rfl⟩
  | cons head rest ih =>
    by_cases here : head.type = new.type
    · exact Or.inr ⟨[], head, rest, rfl, here, List.not_mem_nil, by simp [set, here, entered]⟩
    · rcases ih with ⟨absent, is⟩ | ⟨before, held, after, rfl, same, absent, is⟩
      · refine Or.inl ⟨?_, by simp [set, here, is]⟩
        exact List.not_mem_cons_of_ne_of_not_mem (Ne.symm here) absent
      · refine Or.inr ⟨head :: before, held, after, rfl, same, ?_, by simp [set, here, is]⟩
        exact List.not_mem_cons_of_ne_of_not_mem (Ne.symm here) absent

theorem find_append (before after : Conditions) (type : String) :
    find? (before ++ after) type = (before.find? type).or (after.find? type) :=
  List.find?_append

theorem find_cons (held : Condition) (after : Conditions) (type : String) :
    find? (held :: after) type = if held.type = type then some held else after.find? type := by
  by_cases same : held.type = type <;> simp [find?, same]

theorem find_set (now : Timestamp) (conditions : Conditions) (new : Condition) (type : String) :
    (conditions.set now new).2.find? type =
      if new.type = type then some (entered now new (conditions.find? new.type))
      else conditions.find? type := by
  rcases set_cases now conditions new with
    ⟨absent, is⟩ | ⟨before, held, after, rfl, same, absent, is⟩
  · have none_ := find_eq_none_iff.mpr absent
    have type_ : (entered now new none).type = new.type := rfl
    rw [is, find_append, find_cons, type_]
    split
    next here =>
      subst here
      simp [none_]
    next => simp [find?]
  · have none_ := find_eq_none_iff.mpr absent
    have type_ : (entered now new (some held)).type = new.type := same
    simp only [is, find_append, find_cons, type_, same]
    split
    next here =>
      subst here
      simp [none_]
    next => rfl

theorem types_set (now : Timestamp) (conditions : Conditions) (new : Condition) :
    (conditions.set now new).2.types =
      if new.type ∈ conditions.types then conditions.types
      else conditions.types ++ [new.type] := by
  rcases set_cases now conditions new with ⟨absent, is⟩ | ⟨before, held, after, rfl, same, _, is⟩
  · rw [is, if_neg absent]
    simp [types, entered]
  · have among : new.type ∈ types (before ++ held :: after) := by simp [types, same]
    rw [is, if_pos among]
    simp [types, entered, revise]

theorem find_remove (conditions : Conditions) (removed type : String) :
    (conditions.remove removed).2.find? type =
      if removed = type then none else conditions.find? type := by
  simp only [remove, find?, List.find?_filter]
  split
  next same => simp [same]
  next other =>
    congr 1
    funext c
    by_cases is : c.type = type <;> simp [is, Ne.symm other]

theorem types_remove (conditions : Conditions) (removed : String) :
    (conditions.remove removed).2.types = conditions.types.filter (· ≠ removed) := by
  simp only [remove, types, List.filter_map]
  rfl

theorem differs_eq_false_iff : differs held new = false ↔
    held.status = new.status ∧ held.reason = new.reason ∧ held.message = new.message := by
  simp [differs, and_assoc]

theorem entered_eq_self_iff :
    entered now new (some held) = held ↔ differs held new = false := by
  rw [differs_eq_false_iff]
  constructor
  · intro same
    rw [← same]
    exact ⟨rfl, rfl, rfl⟩
  · rintro ⟨status, reason, message⟩
    rw [entered, revise, if_pos status, ← status, ← reason, ← message]

theorem set_unchanged_iff (now : Timestamp) (conditions : Conditions) (new : Condition) :
    (conditions.set now new).1 = false ↔
      ∃ held, conditions.find? new.type = some held ∧ differs held new = false := by
  rcases set_cases now conditions new with
    ⟨absent, is⟩ | ⟨before, held, after, rfl, same, absent, is⟩
  · simp [is, find_eq_none_iff.mpr absent]
  · simp [is, find_append, find_cons, same, find_eq_none_iff.mpr absent]

structure Setting where
  now : Timestamp
  type : String
  status : ConditionStatus
  reason : String
  message : String
  deriving DecidableEq

def Setting.condition (s : Setting) : Condition := ⟨s.type, s.status, s.reason, s.message, none⟩

inductive Call where
  | set (s : Setting)
  | remove (type : String)
  deriving DecidableEq

def Call.perform : Call → Conditions → Bool × Conditions
  | .set s, conditions => conditions.set s.now s.condition
  | .remove type, conditions => conditions.remove type

theorem perform_changed_iff (call : Call) (conditions : Conditions) :
    (call.perform conditions).1 = true ↔ (call.perform conditions).2 ≠ conditions := by
  cases call with
  | set s =>
    rw [Call.perform]
    rcases set_cases s.now conditions s.condition with
      ⟨_, is⟩ | ⟨before, held, after, rfl, _, _, is⟩
    · simp [is]
    · simp [is, entered_eq_self_iff]
  | remove type => simp [Call.perform, remove]

theorem perform_eq_self_iff {call : Call} :
    call.perform conditions = (false, conditions) ↔ (call.perform conditions).1 = false := by
  have changed := perform_changed_iff call conditions
  rw [Prod.ext_iff, and_iff_left_iff_imp]
  intro same
  simpa [same] using changed

def ledger : List Call → Conditions
  | [] => []
  | call :: before => (call.perform (ledger before)).2

/-- The sets of a type since it was last removed, the latest first. -/
def era (type : String) : List Call → List Setting
  | [] => []
  | .remove t :: before => if t = type then [] else era type before
  | .set s :: before => if s.type = type then s :: era type before else era type before

/-- How many calls came before the first of these sets. -/
def begun (type : String) : List Call → Option Nat
  | [] => none
  | .remove t :: before => if t = type then none else begun type before
  | .set s :: before =>
    begun type before <|> if s.type = type then some before.length else none

/-- What these sets leave of their type: the words of the last one, and the time of the first of
those that agree with it in status without a break. -/
def entryOf (type : String) : List Setting → Option Condition
  | [] => none
  | last :: before =>
    let series := (last :: before).takeWhile fun s => s.status = last.status
    some ⟨type, last.status, last.reason, last.message, series.getLast?.map (·.now)⟩

def Precedes (history : List Call) (a b : String) : Prop :=
  ∃ i j, begun a history = some i ∧ begun b history = some j ∧ i < j

variable {type : String} {s : Setting} {history : List Call}

theorem entryOf_cons (s : Setting) (sets : List Setting) :
    entryOf s.type (s :: sets) = some (entered s.now s.condition (entryOf s.type sets)) := by
  cases sets with
  | nil => simp [entryOf, entered, Setting.condition]
  | cons last before =>
    -- the series of the last set goes on or a new one begins
    by_cases same : last.status = s.status <;>
      simp [entryOf, entered, revise, Setting.condition, same]

theorem find_ledger (history : List Call) (type : String) :
    (ledger history).find? type = entryOf type (era type history) := by
  induction history with
  | nil => rfl
  | cons call before ih =>
    cases call with
    | set s =>
      rw [ledger, Call.perform, find_set]
      by_cases here : s.type = type
      · subst here
        rw [era, if_pos rfl, entryOf_cons, ← ih]
        exact if_pos rfl
      · rw [era, if_neg here, ← ih]
        exact if_neg here
    | remove removed =>
      rw [ledger, Call.perform, find_remove, era]
      split
      · rfl
      · exact ih

theorem type_of_mem_era (among : s ∈ era type history) : s.type = type := by
  induction history with
  | nil => exact absurd among List.not_mem_nil
  | cons call before ih =>
    cases call with
    | set new =>
      rw [era] at among
      split at among
      next here =>
        rcases List.mem_cons.mp among with rfl | earlier
        · exact here
        · exact ih earlier
      next => exact ih among
    | remove removed =>
      rw [era] at among
      split at among
      · exact absurd among List.not_mem_nil
      · exact ih among

theorem begun_lt {place : Nat} (begins : begun type history = some place) :
    place < history.length := by
  induction history with
  | nil => contradiction
  | cons call before ih =>
    rw [List.length_cons]
    cases call with
    | set s =>
      rw [begun] at begins
      cases earlier : begun type before with
      | some i =>
        rw [earlier] at begins
        cases begins
        exact Nat.lt_succ_of_lt (ih earlier)
      | none =>
        rw [earlier] at begins
        simp only [Option.orElse_eq_orElse, Option.orElse_none] at begins
        split at begins <;> cases begins
        exact Nat.lt_succ_self _
    | remove removed =>
      rw [begun] at begins
      split at begins
      · contradiction
      · exact Nat.lt_succ_of_lt (ih begins)

theorem begun_eq_none_iff : begun type history = none ↔ type ∉ (ledger history).types := by
  induction history with
  | nil => exact iff_of_true rfl List.not_mem_nil
  | cons call before ih =>
    cases call with
    | set s =>
      have sets : begun type (.set s :: before) = none ↔
          type ∉ (ledger before).types ∧ s.type ≠ type := by
        rw [begun, ← ih]
        simp
      have type_ : s.condition.type = s.type := rfl
      rw [sets, ledger, Call.perform, types_set, type_]
      split
      next held =>
        refine and_iff_left_of_imp fun absent same => ?_
        rw [same] at held
        exact absent held
      next =>
        rw [List.mem_append, List.mem_singleton, not_or]
        exact and_congr_right fun _ => ne_comm
    | remove removed =>
      rw [begun, ledger, Call.perform, types_remove, List.mem_filter]
      split
      next same => simp [same]
      next other => simp [ih, Ne.symm other]

theorem begun_of_mem (held : type ∈ (ledger history).types) :
    ∃ place, begun type history = some place :=
  Option.ne_none_iff_exists'.mp fun absent => begun_eq_none_iff.mp absent held

/-- A further set of a type does not move its beginning. -/
theorem begun_set_of_mem (held : type ∈ (ledger history).types) (s : Setting) :
    begun type (.set s :: history) = begun type history := by
  obtain ⟨place, begins⟩ := begun_of_mem held
  rw [begun, begins]
  rfl

theorem begun_set_of_not_mem (absent : s.type ∉ (ledger history).types) :
    begun s.type (.set s :: history) = some history.length := by
  rw [begun, begun_eq_none_iff.mpr absent, if_pos rfl]
  rfl

theorem begun_remove {removed : String} (other : type ≠ removed) :
    begun type (.remove removed :: history) = begun type history := by
  rw [begun, if_neg other.symm]

theorem types_precede (history : List Call) :
    (ledger history).types.Pairwise (Precedes history) := by
  induction history with
  | nil => exact List.Pairwise.nil
  | cons call before ih =>
    cases call with
    | set s =>
      have kept : (ledger before).types.Pairwise (Precedes (.set s :: before)) := by
        refine ih.imp_of_mem fun {a b} first second precedes => ?_
        rwa [Precedes, begun_set_of_mem first, begun_set_of_mem second]
      rw [ledger, Call.perform, types_set]
      split
      · exact kept
      next absent =>
        refine List.pairwise_append.mpr ⟨kept, List.pairwise_singleton _ _, fun a held b new => ?_⟩
        cases List.mem_singleton.mp new
        obtain ⟨place, begins⟩ := begun_of_mem held
        exact ⟨place, before.length, (begun_set_of_mem held s).trans begins,
          begun_set_of_not_mem absent, begun_lt begins⟩
    | remove removed =>
      rw [ledger, Call.perform, types_remove]
      refine (ih.filter _).imp_of_mem fun {a b} first second precedes => ?_
      rwa [Precedes, begun_remove (by simpa using (List.mem_filter.mp first).2),
        begun_remove (by simpa using (List.mem_filter.mp second).2)]

theorem types_nodup (history : List Call) : (ledger history).types.Nodup := by
  refine (types_precede history).imp ?_
  rintro a _ ⟨i, j, begins, begins', less⟩ rfl
  rw [begins] at begins'
  cases begins'
  exact Nat.lt_irrefl i less

theorem perform_set_unchanged_iff (history : List Call) (s : Setting) :
    (Call.set s).perform (ledger history) = (false, ledger history) ↔
      (era s.type history).head?.map Setting.condition = some s.condition := by
  have type_ : s.condition.type = s.type := rfl
  rw [perform_eq_self_iff, Call.perform, set_unchanged_iff, type_, find_ledger]
  cases sets : era s.type history with
  | nil => simp [entryOf]
  | cons last before =>
    have same : last.type = s.type := type_of_mem_era (sets ▸ List.mem_cons_self)
    simp [entryOf, differs_eq_false_iff, Setting.condition, same]

/-- After any history the list holds one entry for each type that was set since its last removal, in
the order in which they were set first; the entry has the words of the last set of its type and the
time of the first of those that agree with it in status without a break. A call says that it changed
something just if it did. A set does not, whatever the clock shows, just if the last set of its type
was of the same condition. -/
theorem ledger_of_history (history : List Call) :
    (ledger history).types.Nodup ∧
      (∀ type, (ledger history).find? type = entryOf type (era type history)) ∧
      (ledger history).types.Pairwise (Precedes history) ∧
      (∀ call : Call, (call.perform (ledger history)).1 = true ↔
        (call.perform (ledger history)).2 ≠ ledger history) ∧
      ∀ s : Setting, (Call.set s).perform (ledger history) = (false, ledger history) ↔
        (era s.type history).head?.map Setting.condition = some s.condition :=
  ⟨types_nodup history, find_ledger history, types_precede history,
    fun call => perform_changed_iff call (ledger history), perform_set_unchanged_iff history⟩

end HostPorts.Conditions
