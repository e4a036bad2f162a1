import HostPorts.Proofs.Pass.Runs
import Mathlib.Data.List.Nodup

/-!
Passes over several ports at the same time. A race is a run of the controller in which users rest
and every pass bears the name of its port, so that what came of it and the order in which the lock
was taken can be told at the end.
-/
namespace HostPorts

/-- Passes over ports at the same time, each under the name of its port. -/
structure Race where
  store : Store
  passes : List (String × Running)
  /-- The ports whose passes have taken the lock, the first one first. -/
  order : List String := []

namespace Race

def start (s : Store) (names : List String) : Race :=
  { store := s, passes := names.map fun name => (name, { rest := Reconcile.port name }) }

/-- The pass at a place makes its next request, or takes the lock if nobody is inside, or, having
come to its end, gives the lock back. -/
def turn (R : Race) (i : Nat) (now : Timestamp) : Option Race :=
  match R.passes[i]? with
  | none => none
  | some (name, ⟨.done outcome, _⟩) =>
    some { R with passes := R.passes.set i (name, ⟨.done outcome, .outside⟩) }
  | some (name, ⟨.call r next, sec⟩) =>
    let answered := R.store.answer now r
    some { R with
      store := answered.2
      passes := R.passes.set i (name, ⟨next answered.1, sec.after r answered.1⟩) }
  | some (name, ⟨.alone rest, _⟩) =>
    if R.passes.all fun p => !p.2.stand.isInside then
      some { R with
        passes := R.passes.set i (name, ⟨rest, .entered⟩)
        order := R.order ++ [name] }
    else none

def play (R : Race) : List (Nat × Timestamp) → Option Race
  | [] => some R
  | (i, now) :: schedule => (R.turn i now).bind fun T => T.play schedule

def outcomes (R : Race) : List (String × Outcome) :=
  R.passes.filterMap fun p =>
    match p.2.rest with
    | .done outcome => some (p.1, outcome)
    | _ => none

def Finished (R : Race) : Prop := ∀ p ∈ R.passes, ∃ outcome, p.2.rest = .done outcome

instance (rest : Pass Outcome) : Decidable (∃ outcome, rest = .done outcome) :=
  match rest with
  | .done outcome => isTrue ⟨outcome, rfl⟩
  | .call .. => isFalse nofun
  | .alone _ => isFalse nofun

instance (R : Race) : Decidable R.Finished := inferInstanceAs (Decidable (∀ p ∈ R.passes, _))

variable {s : Store} {names : List String} {R T : Race}

theorem mem_outcomes {name : String} {outcome : Outcome} : (name, outcome) ∈ R.outcomes ↔
    ∃ p, (name, p) ∈ R.passes ∧ p.rest = .done outcome := by
  rw [outcomes, List.mem_filterMap]
  constructor
  · rintro ⟨⟨name', p⟩, member, is⟩
    split at is
    next done =>
      cases is
      exact ⟨p, member, done⟩
    next => contradiction
  · rintro ⟨p, member, done⟩
    exact ⟨(name, p), member, by simp only [done]⟩

theorem Finished.map_outcomes (finished : R.Finished) :
    R.outcomes.map Prod.fst = R.passes.map Prod.fst := by
  rw [outcomes, List.map_filterMap, ← List.filterMap_eq_map]
  apply List.filterMap_congr
  intro e member
  obtain ⟨outcome, done⟩ := finished e member
  simp [done]

end Race

def Running.hasLeft : Running → Bool
  | ⟨.done _, .outside⟩ => true
  | _ => false

namespace Race

variable {allowed : Cluster → UserAct → Prop} {claimPrefix : String} {s : Store}
  {names : List String} {R T : Race}

def cluster (R : Race) : Cluster :=
  ⟨R.store, (R.passes.map Prod.snd).filter fun p => !p.hasLeft⟩

theorem cluster_set {i : Nat} {name : String} {p : Running}
    (here : R.passes[i]? = some (name, p)) :
    ∃ before after : List Running,
      (∀ q ∈ before ++ after, ∃ e ∈ R.passes, e.2 = q) ∧
      ∀ s q order, cluster ⟨s, R.passes.set i (name, q), order⟩ =
        ⟨s, before ++ (if q.hasLeft then after else q :: after)⟩ := by
  obtain ⟨below, _⟩ := List.getElem?_eq_some_iff.mp here
  refine ⟨((R.passes.take i).map Prod.snd).filter fun p => !p.hasLeft,
    ((R.passes.drop (i + 1)).map Prod.snd).filter fun p => !p.hasLeft, ?_, ?_⟩
  · intro q member
    rw [← List.filter_append, ← List.map_append] at member
    obtain ⟨e, listed, is⟩ := List.mem_map.mp (List.mem_filter.mp member).1
    refine ⟨e, ?_, is⟩
    rcases List.mem_append.mp listed with first | last
    · exact List.mem_of_mem_take first
    · exact List.mem_of_mem_drop last
  · intro s q order
    rw [cluster, List.set_eq_take_append_cons_drop, if_pos below, List.map_append,
      List.filter_append, List.map_cons, List.filter_cons]
    cases q.hasLeft <;> rfl

theorem steps_leave (s : Store) (before after : List Running) (q : Running) :
    Relation.ReflTransGen (Cluster.Step allowed claimPrefix) ⟨s, before ++ q :: after⟩
      ⟨s, before ++ (if q.hasLeft then after else q :: after)⟩ := by
  split
  · exact .single .leave
  · exact .refl

theorem steps_of_turn {i : Nat} {now : Timestamp} (turned : R.turn i now = some T) :
    Relation.ReflTransGen (Cluster.Step allowed claimPrefix) R.cluster T.cluster := by
  have standing : ∀ {name p}, R.passes[i]? = some (name, p) →
      R.cluster = cluster ⟨R.store, R.passes.set i (name, p), R.order⟩ := by
    intro name p here
    obtain ⟨below, is⟩ := List.getElem?_eq_some_iff.mp here
    rw [← is, List.set_getElem_self]
  unfold turn at turned
  split at turned
  next => contradiction
  next name outcome sec here =>
    obtain rfl := Option.some.inj turned
    obtain ⟨before, after, _, is⟩ := cluster_set here
    rw [standing here, is, is]
    cases sec with
    | outside => exact .refl
    | entered => exact .single .leave
    | offered pools => exact .single .leave
  next name r next sec here =>
    obtain rfl := Option.some.inj turned
    obtain ⟨before, after, _, is⟩ := cluster_set here
    rw [standing here, is, is]
    exact .head (.call now) (steps_leave ..)
  next name rest sec here =>
    split at turned
    next free =>
      obtain rfl := Option.some.inj turned
      obtain ⟨before, after, others, is⟩ := cluster_set here
      rw [standing here, is, is]
      refine .head (.enter ?_) (steps_leave ..)
      intro q member
      obtain ⟨e, listed, rfl⟩ := others q member
      simpa using List.all_eq_true.mp free e listed
    next => contradiction

theorem steps_of_start (s : Store) (names : List String) :
    Relation.ReflTransGen (Cluster.Step allowed claimPrefix) ⟨s, []⟩ (start s names).cluster := by
  induction names with
  | nil => exact .refl
  | cons name rest ih =>
    have step : Cluster.Step allowed claimPrefix (start s rest).cluster
        (start s (name :: rest)).cluster := .start Cluster.noon .port ⟨none, name⟩
    exact ih.tail step

/-- Every race is a run of the controller. -/
theorem steps_of_play {schedule : List (Nat × Timestamp)}
    (played : (start s names).play schedule = some R) :
    Relation.ReflTransGen (Cluster.Step allowed claimPrefix) ⟨s, []⟩ R.cluster := by
  refine (steps_of_start s names).trans ?_
  generalize start s names = Q at played
  induction schedule generalizing Q with
  | nil =>
    cases played
    exact .refl
  | cons turn rest ih =>
    obtain ⟨mid, first, last⟩ := Option.bind_eq_some_iff.mp played
    exact (steps_of_turn first).trans (ih mid last)

end Race
end HostPorts
