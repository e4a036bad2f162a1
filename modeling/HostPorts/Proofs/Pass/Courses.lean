import HostPorts.Proofs.Pass.Runs
import HostPorts.Proofs.Store.Lineage

/-!
The course that objects take. Where every deed of a pass and every act of a user changes an object
by at most one step of its course, runs take it any number of steps further, and a pass may rely on
that between its requests.
-/
namespace HostPorts

/-- One step in the course of an object, in stores that keep an invariant. -/
structure Course where
  step : Change
  inv : Store → Prop
  refl : ∀ k (o : Object k), step k o o
  orderly : ∀ {s}, inv s → s.Orderly

namespace Course

variable {C : Course} {fault : Request → StoreError → Prop} {allowed : Cluster → UserAct → Prop}
  {claimPrefix : String} {S T : Cluster}

/-- Of a deed it is enough to see that a next version of an object is one step further. -/
theorem lineage_of_deed {D : Discipline} {sec : Section} {s s' : Store} {k : Kind} {key : String}
    {new : Option (Object k)} (orderly : s'.Orderly) (puts : s.Puts s' k key new)
    (deed : D.Deed claimPrefix s sec k key new)
    (next : ∀ old o, new = some o → s.find k key = some old → o.Succeeds old → C.step k old o) :
    Store.Lineage C.step s s' := by
  apply Store.Lineage.of_puts C.refl orderly puts
  intro o eq
  subst eq
  rcases deed.succeeds with ⟨old, found, succeeds⟩ | ⟨_, _, _, _, fresh⟩
  · exact Or.inl ⟨old, found, succeeds.uid, next old o rfl found succeeds⟩
  · exact Or.inr fresh

def discipline (C : Course) (fault : Request → StoreError → Prop) : Discipline where
  inv := C.inv
  rely _ s s' := s.Evolves s' ∧ Store.Lineage C.step.Closure s s'
  promise _ s s' := Store.Lineage C.step s s'
  rely_refl _ s := ⟨.refl s, .of_unchanged (fun _ _ => .refl) (.refl s)⟩
  rely_trans _ _ h h' := ⟨h.1.trans h'.1, h.2.trans .trans h'.2⟩
  rely_outside h := h
  promise_refl _ s := .of_unchanged C.refl (.refl s)
  inv_orderly h := C.orderly h
  rely_evolves h := h.1
  fault := fault

structure Allows (C : Course) (allowed : Cluster → UserAct → Prop) : Prop where
  start : C.inv {}
  act : ∀ {S a}, C.inv S.store → allowed S a →
    C.inv (a.perform S.store) ∧ Store.Lineage C.step S.store (a.perform S.store)

theorem coordinated (h : C.Allows allowed) : (C.discipline fault).Coordinates allowed where
  start := h.start
  among _ evolves keeps _ := ⟨evolves, keeps.2.closure⟩
  act {S a} valid ok := by
    obtain ⟨valid', step⟩ := h.act valid ok
    exact ⟨valid', fun p _ => ⟨S.store.evolves_perform a, step.closure⟩⟩

theorem lineage_of_step (h : C.Allows allowed) (holds : (C.discipline fault).Holds S)
    (move : S.Step allowed claimPrefix T) : Store.Lineage C.step S.store T.store := by
  have still : ∀ s, Store.Lineage C.step s s := fun s => .of_unchanged C.refl (.refl s)
  cases move with
  | act a ok => exact (h.act holds.inv ok).2
  | start => exact still _
  | @call s before after r next sec now =>
    have own := holds.safe ⟨.call r next, sec⟩ (by simp)
    exact ((own s holds.inv ((C.discipline fault).rely_refl sec s)).1 now).1.2
  | enter => exact still _
  | leave => exact still _

theorem lineage_of_steps (U : (C.discipline fault).Upholds claimPrefix) (h : C.Allows allowed)
    (holds : (C.discipline fault).Holds S)
    (moves : Relation.ReflTransGen (Cluster.Step allowed claimPrefix) S T) :
    Store.Lineage C.step.Closure S.store T.store := by
  suffices (C.discipline fault).Holds T ∧ Store.Lineage C.step.Closure S.store T.store from this.2
  induction moves with
  | refl => exact ⟨holds, .of_unchanged (fun _ _ => .refl) (.refl _)⟩
  | tail _ move ih =>
    obtain ⟨holds, before⟩ := ih
    exact ⟨holds.step U (coordinated h) move,
      before.trans .trans (lineage_of_step h holds move).closure⟩

/-- A pass that runs to its end takes objects as far as its requests do. -/
theorem lineage_of_run (now : Timestamp) {α : Type} {p : Pass α} {sec : Section} {s : Store}
    (safe : (C.discipline fault).Safe p sec s) (valid : C.inv s) :
    Store.Lineage C.step.Closure s (s.run now p).2 := by
  induction p generalizing sec s with
  | done a => exact .of_unchanged (fun _ _ => .refl) (.refl s)
  | call r next ih =>
    obtain ⟨⟨kept, first⟩, rest⟩ := (safe s valid ((C.discipline fault).rely_refl sec s)).1 now
    exact (first : Store.Lineage C.step s _).closure.trans .trans (ih _ rest kept)
  | alone rest ih => exact ih (safe s valid ((C.discipline fault).rely_refl sec s)) valid

theorem lineage_of_serialSteps {others : Store → Store → Prop} {s s' : Store}
    (U : (C.discipline fault).Upholds claimPrefix)
    (other : ∀ {s s'}, C.inv s → others s s' → C.inv s' ∧ Store.Lineage C.step s s')
    (valid : C.inv s) (moves : Relation.ReflTransGen (SerialStep others claimPrefix) s s') :
    Store.Lineage C.step.Closure s s' := by
  suffices C.inv s' ∧ Store.Lineage C.step.Closure s s' from this.2
  induction moves with
  | refl => exact ⟨valid, .of_unchanged (fun _ _ => .refl) (.refl s)⟩
  | tail _ move ih =>
    obtain ⟨valid', before⟩ := ih
    cases move with
    | other ok =>
      obtain ⟨kept, step⟩ := other valid' ok
      exact ⟨kept, before.trans .trans step.closure⟩
    | pass now later k ref =>
      have safe := Discipline.safe_pass U now k ref
      exact ⟨(safe _).run later valid', before.trans .trans (lineage_of_run later (safe _) valid')⟩

end Course
end HostPorts
