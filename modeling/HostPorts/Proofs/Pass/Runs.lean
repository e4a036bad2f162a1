import HostPorts.Proofs.Pass.Deeds
import Mathlib.Logic.Relation

/-!
Runs of a controller. In an interleaved run any number of passes take their requests in turn, and
users act between any two of them; only the sections behind the lock on allocation exclude each
other. In a serial run each pass runs to its end. A discipline that the deeds of passes and the
acts of users uphold holds throughout.
-/
namespace HostPorts

structure Running where
  rest : Pass Outcome
  stand : Section := .outside

structure Cluster where
  store : Store := {}
  running : List Running := []

namespace Cluster

/-- One step of an interleaved run, in which users act as `allowed`. -/
inductive Step (allowed : Cluster → UserAct → Prop) (claimPrefix : String) :
    Cluster → Cluster → Prop where
  | act {S : Cluster} (a : UserAct) (ok : allowed S a) :
      Step allowed claimPrefix S { S with store := a.perform S.store }
  | start {S : Cluster} (now : Timestamp) (k : Kind) (ref : ObjectRef) :
      Step allowed claimPrefix S
        { S with running := { rest := Reconcile.pass now claimPrefix k ref } :: S.running }
  | call {s : Store} {before after : List Running} {r : Request} {next : r.Reply → Pass Outcome}
      {sec : Section} (now : Timestamp) :
      Step allowed claimPrefix ⟨s, before ++ ⟨.call r next, sec⟩ :: after⟩
        ⟨(s.answer now r).2, before ++
          ⟨next (Store.answer now r s).1, sec.after r (Store.answer now r s).1⟩ :: after⟩
  | enter {s : Store} {before after : List Running} {rest : Pass Outcome} {sec : Section}
      (free : ∀ p ∈ before ++ after, p.stand.isInside = false) :
      Step allowed claimPrefix ⟨s, before ++ ⟨.alone rest, sec⟩ :: after⟩
        ⟨s, before ++ ⟨rest, .entered⟩ :: after⟩
  /-- Finished or abandoned; a lock that was held is free again. -/
  | leave {s : Store} {before after : List Running} {p : Running} :
      Step allowed claimPrefix ⟨s, before ++ p :: after⟩ ⟨s, before ++ after⟩

/-- What a controller and its users can bring about from an empty store. -/
def Reachable (allowed : Cluster → UserAct → Prop) (claimPrefix : String) (S : Cluster) : Prop :=
  Relation.ReflTransGen (Step allowed claimPrefix) {} S

inductive Move where
  | act (a : UserAct)
  | start (now : Timestamp) (k : Kind) (ref : ObjectRef)
  | call (i : Nat) (now : Timestamp)
  | enter (i : Nat)
  | leave (i : Nat)

def play (claimPrefix : String) (S : Cluster) : Move → Option Cluster
  | .act a => some { S with store := a.perform S.store }
  | .start now k ref =>
    some { S with running := { rest := Reconcile.pass now claimPrefix k ref } :: S.running }
  | .call i now =>
    match S.running[i]? with
    | some ⟨.call r next, sec⟩ =>
      let (reply, s) := S.store.answer now r
      some ⟨s, S.running.take i ++ ⟨next reply, sec.after r reply⟩ :: S.running.drop (i + 1)⟩
    | _ => none
  | .enter i =>
    match S.running[i]? with
    | some ⟨.alone rest, _⟩ =>
      if (S.running.take i ++ S.running.drop (i + 1)).all fun p => !p.stand.isInside then
        some ⟨S.store, S.running.take i ++ ⟨rest, .entered⟩ :: S.running.drop (i + 1)⟩
      else none
    | _ => none
  | .leave i =>
    match S.running[i]? with
    | some _ => some ⟨S.store, S.running.take i ++ S.running.drop (i + 1)⟩
    | none => none

def playAll (claimPrefix : String) (S : Cluster) : List Move → Option Cluster
  | [] => some S
  | m :: rest => (S.play claimPrefix m).bind fun T => T.playAll claimPrefix rest

def after (claimPrefix : String) (moves : List Move) : Cluster :=
  (playAll claimPrefix {} moves).getD {}

def noon : Timestamp := ⟨⟨2024, 5, 1, 12, 0, 0, 0⟩, by decide⟩

/-- A pass of so many requests, none of them inside, that nothing comes between. -/
def Move.whole (k : Kind) (ref : ObjectRef) (requests : Nat) : List Move :=
  .start noon k ref :: List.replicate requests (.call 0 noon) ++ [.leave 0]

def Move.Acts (P : UserAct → Prop) : Move → Prop
  | .act a => P a
  | _ => True

instance (P : UserAct → Prop) [DecidablePred P] (m : Move) : Decidable (m.Acts P) := by
  cases m <;> simp only [Move.Acts] <;> infer_instance

section

variable {allowed : Cluster → UserAct → Prop} {claimPrefix : String} {S T : Cluster}

theorem split_running {i : Nat} {p : Running} (found : S.running[i]? = some p) :
    ⟨S.store, S.running.take i ++ p :: S.running.drop (i + 1)⟩ = S := by
  obtain ⟨below, is⟩ := List.getElem?_eq_some_iff.mp found
  rw [← is, List.getElem_cons_drop, List.take_append_drop]

theorem play_step {m : Move} (ok : ∀ a, m = .act a → allowed S a)
    (played : S.play claimPrefix m = some T) : S.Step allowed claimPrefix T := by
  cases m with
  | act a =>
    cases played
    exact .act a (ok a rfl)
  | start now k ref =>
    cases played
    exact .start now k ref
  | call i now =>
    simp only [Cluster.play] at played
    split at played
    next r next sec found =>
      cases played
      have step : Step allowed claimPrefix
          ⟨S.store, S.running.take i ++ ⟨.call r next, sec⟩ :: S.running.drop (i + 1)⟩ _ :=
        .call now
      rwa [split_running found] at step
    · contradiction
  | enter i =>
    simp only [Cluster.play] at played
    split at played
    next rest sec found =>
      split at played
      next free =>
        cases played
        have others : ∀ p ∈ S.running.take i ++ S.running.drop (i + 1),
            p.stand.isInside = false := by
          intro p member
          simpa using List.all_eq_true.mp free p member
        have step : Step allowed claimPrefix
            ⟨S.store, S.running.take i ++ ⟨.alone rest, sec⟩ :: S.running.drop (i + 1)⟩ _ :=
          .enter others
        rwa [split_running found] at step
      · contradiction
    · contradiction
  | leave i =>
    simp only [Cluster.play] at played
    split at played
    next p found =>
      cases played
      have step : Step allowed claimPrefix
          ⟨S.store, S.running.take i ++ p :: S.running.drop (i + 1)⟩ _ := .leave
      rwa [split_running found] at step
    · contradiction

theorem playAll_steps {P : UserAct → Prop} {moves : List Move} (fits : ∀ S a, P a → allowed S a)
    (acts : ∀ m ∈ moves, m.Acts P) (played : S.playAll claimPrefix moves = some T) :
    Relation.ReflTransGen (Step allowed claimPrefix) S T := by
  induction moves generalizing S with
  | nil =>
    cases played
    exact .refl
  | cons m rest ih =>
    obtain ⟨mid, first, last⟩ := Option.bind_eq_some_iff.mp played
    refine .head (play_step ?_ first) (ih ?_ last)
    · intro a is
      have fit := acts m List.mem_cons_self
      rw [is] at fit
      exact fits S a fit
    · intro m' member
      exact acts m' (List.mem_cons_of_mem m member)

theorem reachable_after {P : UserAct → Prop} {moves : List Move}
    (fits : ∀ S a, P a → allowed S a) (acts : ∀ m ∈ moves, m.Acts P)
    (played : (playAll claimPrefix {} moves).isSome = true) :
    (after claimPrefix moves).Reachable allowed claimPrefix := by
  apply playAll_steps fits acts
  unfold after
  cases ends : playAll claimPrefix {} moves with
  | some T => rfl
  | none =>
    rw [ends] at played
    contradiction

end

end Cluster

/-- One step of a serial run: a whole pass, or what others do to the store. -/
inductive SerialStep (others : Store → Store → Prop) (claimPrefix : String) :
    Store → Store → Prop where
  | other {s s' : Store} (ok : others s s') : SerialStep others claimPrefix s s'
  | pass {s : Store} (now later : Timestamp) (k : Kind) (ref : ObjectRef) :
      SerialStep others claimPrefix s (s.run later (Reconcile.pass now claimPrefix k ref)).2

def SeriallyReachable (others : Store → Store → Prop) (claimPrefix : String) (s : Store) : Prop :=
  Relation.ReflTransGen (SerialStep others claimPrefix) {} s

inductive UserStep (allowed : UserAct → Prop) (s : Store) : Store → Prop where
  | user (a : UserAct) (ok : allowed a) : UserStep allowed s (a.perform s)

inductive SerialMove where
  | act (a : UserAct)
  | pass (now : Timestamp) (k : Kind) (ref : ObjectRef)

namespace SerialMove

def play (claimPrefix : String) (s : Store) : SerialMove → Store
  | .act a => a.perform s
  | .pass now k ref => (s.run now (Reconcile.pass now claimPrefix k ref)).2

def Acts (P : UserAct → Prop) : SerialMove → Prop
  | .act a => P a
  | .pass .. => True

instance (P : UserAct → Prop) [DecidablePred P] (m : SerialMove) : Decidable (m.Acts P) := by
  cases m <;> simp only [Acts] <;> infer_instance

variable {others : Store → Store → Prop} {claimPrefix : String} {P : UserAct → Prop} {s : Store}

theorem reachable (moves : List SerialMove) (h : SeriallyReachable others claimPrefix s)
    (fits : ∀ s a, P a → others s (a.perform s)) (acts : ∀ m ∈ moves, m.Acts P) :
    SeriallyReachable others claimPrefix (moves.foldl (play claimPrefix) s) := by
  induction moves generalizing s with
  | nil => exact h
  | cons m rest ih =>
    refine ih ?_ fun m' member => acts m' (List.mem_cons_of_mem m member)
    have fit := acts m List.mem_cons_self
    cases m with
    | act a => exact h.tail (.other (fits s a fit))
    | pass now k ref => exact h.tail (.pass now now k ref)

end SerialMove

namespace Discipline

variable {D : Discipline} {claimPrefix : String}

def Apart (p q : Running) : Prop := p.stand.isInside = false ∨ q.stand.isInside = false

theorem Apart.symm {p q : Running} (h : Apart p q) : Apart q p := Or.symm h

structure Holds (D : Discipline) (S : Cluster) : Prop where
  inv : D.inv S.store
  safe : ∀ p ∈ S.running, D.Safe p.rest p.stand S.store
  apart : S.running.Pairwise Apart

/-- Each pass can rely on what the others and the users do. -/
structure Coordinates (D : Discipline) (allowed : Cluster → UserAct → Prop) : Prop where
  start : D.inv {}
  among : ∀ {sec other s s'}, D.inv s → s.Evolves s' → D.Keeps sec s s' →
    sec.isInside = false ∨ other.isInside = false → D.rely other s s'
  act : ∀ {S a}, D.inv S.store → allowed S a → D.inv (a.perform S.store) ∧
    ∀ p ∈ S.running, D.rely p.stand S.store (a.perform S.store)

section

variable {s s' : Store} {before after : List Running} {p q : Running}

theorem Holds.others (h : D.Holds ⟨s, before ++ p :: after⟩) :
    (∀ r ∈ before ++ after, D.Safe r.rest r.stand s ∧ Apart p r) ∧
      (before ++ after).Pairwise Apart := by
  have apart := h.apart
  rw [List.pairwise_middle Apart.symm, List.pairwise_cons] at apart
  refine ⟨?_, apart.2⟩
  intro r member
  refine ⟨h.safe r ?_, apart.1 r member⟩
  rw [List.mem_append, List.mem_cons]
  rcases List.mem_append.mp member with front | back
  · exact Or.inl front
  · exact Or.inr (Or.inr back)

theorem Holds.replace (h : D.Holds ⟨s, before ++ p :: after⟩) (valid' : D.inv s')
    (safe' : D.Safe q.rest q.stand s')
    (bears : ∀ r ∈ before ++ after, Apart p r → D.rely r.stand s s' ∧ Apart q r) :
    D.Holds ⟨s', before ++ q :: after⟩ := by
  obtain ⟨others, apart⟩ := h.others
  have bear : ∀ r ∈ before ++ after, D.Safe r.rest r.stand s' ∧ Apart q r := by
    intro r member
    obtain ⟨safe, apart⟩ := others r member
    obtain ⟨drift, apart'⟩ := bears r member apart
    exact ⟨safe.stable h.inv valid' drift, apart'⟩
  refine ⟨valid', ?_, ?_⟩
  · intro r member
    rw [List.mem_append, List.mem_cons] at member
    rcases member with front | rfl | back
    · exact (bear r (List.mem_append.mpr (Or.inl front))).1
    · exact safe'
    · exact (bear r (List.mem_append.mpr (Or.inr back))).1
  · rw [List.pairwise_middle Apart.symm, List.pairwise_cons]
    exact ⟨fun r member => (bear r member).2, apart⟩

end

theorem Apart.after {p q : Pass Outcome} {sec : Section} {r : Request} {reply : r.Reply}
    {other : Running} (h : Apart ⟨p, sec⟩ other) : Apart ⟨q, sec.after r reply⟩ other := by
  rcases h with outside | outside
  · left
    cases sec with
    | outside => rfl
    | entered => contradiction
    | offered pools => contradiction
  · exact Or.inr outside

theorem Holds.step {allowed : Cluster → UserAct → Prop} {S T : Cluster}
    (U : D.Upholds claimPrefix) (C : D.Coordinates allowed) (h : D.Holds S)
    (step : S.Step allowed claimPrefix T) : D.Holds T := by
  cases step with
  | act a ok =>
    obtain ⟨valid', drift⟩ := C.act h.inv ok
    refine ⟨valid', ?_, h.apart⟩
    intro p member
    exact (h.safe p member).stable h.inv valid' (drift p member)
  | start now k ref =>
    refine ⟨h.inv, ?_, ?_⟩
    · intro p member
      rcases List.mem_cons.mp member with rfl | member
      · exact safe_pass U now k ref S.store
      · exact h.safe p member
    · exact List.pairwise_cons.mpr ⟨fun _ _ => Or.inl rfl, h.apart⟩
  | @call s before after r next sec now =>
    have own := h.safe ⟨.call r next, sec⟩ (by simp)
    obtain ⟨keeps, rest⟩ := (own s h.inv (D.rely_refl sec s)).1 now
    apply h.replace keeps.1 rest
    intro other _ apart
    exact ⟨C.among h.inv (Store.evolves_answer now r s) keeps apart, apart.after⟩
  | @enter s before after rest sec free =>
    have own := h.safe ⟨.alone rest, sec⟩ (by simp)
    apply h.replace h.inv (own s h.inv (D.rely_refl sec s))
    intro other member _
    exact ⟨D.rely_refl _ s, Or.inr (free other member)⟩
  | leave =>
    obtain ⟨others, apart⟩ := h.others
    exact ⟨h.inv, fun p member => (others p member).1, apart⟩

theorem Holds.start {allowed : Cluster → UserAct → Prop} (C : D.Coordinates allowed) :
    D.Holds {} := by
  refine ⟨C.start, ?_, List.Pairwise.nil⟩
  intro p member
  contradiction

/-- Along every interleaved run the invariant holds and at most one pass is inside. -/
theorem holds_of_reachable {allowed : Cluster → UserAct → Prop} {S : Cluster}
    (U : D.Upholds claimPrefix) (C : D.Coordinates allowed)
    (reachable : S.Reachable allowed claimPrefix) : D.Holds S := by
  induction reachable with
  | refl => exact .start C
  | tail _ step ih => exact ih.step U C step

/-- Along every serial run the invariant holds. -/
theorem inv_of_seriallyReachable {others : Store → Store → Prop} {s : Store}
    (U : D.Upholds claimPrefix) (start : D.inv {})
    (other : ∀ {s s'}, D.inv s → others s s' → D.inv s')
    (reachable : SeriallyReachable others claimPrefix s) : D.inv s := by
  induction reachable with
  | refl => exact start
  | tail _ step ih =>
    cases step with
    | other ok => exact other ih ok
    | pass now later k ref => exact (safe_pass U now k ref _).run later ih

theorem inv_of_userSteps {allowed : UserAct → Prop} {s : Store} (U : D.Upholds claimPrefix)
    (start : D.inv {}) (act : ∀ {s : Store} {a}, D.inv s → allowed a → D.inv (a.perform s))
    (reachable : SeriallyReachable (UserStep allowed) claimPrefix s) : D.inv s := by
  refine inv_of_seriallyReachable U start ?_ reachable
  rintro s _ valid ⟨a, ok⟩
  exact act valid ok

def solo (inv : Store → Prop) (orderly : ∀ {s}, inv s → s.Orderly) : Discipline where
  inv := inv
  rely _ s s' := s' = s
  promise _ _ _ := True
  rely_refl _ _ := rfl
  rely_trans _ _ h h' := h'.trans h
  rely_outside h := h
  promise_refl _ _ := trivial
  inv_orderly := orderly
  rely_evolves h := by
    rw [h]
    exact .refl _

/-- What a pass has seen in a serial run still holds. -/
theorem Once.of_solo {inv P : Store → Prop} {orderly : ∀ {s}, inv s → s.Orderly} {s : Store}
    (h : (solo inv orderly).Once P s) : P s := by
  obtain ⟨_, _, holds, rfl⟩ := h
  exact holds

end Discipline
end HostPorts
