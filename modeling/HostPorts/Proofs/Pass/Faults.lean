import HostPorts.Proofs.Pass.Runs

/-!
Runs with failures. A request may fail without having reached the store, and its pass goes on from
the error as from any reply. A pass that stops in between is one that leaves. What passes uphold
under a discipline that reckons with these failures, they uphold in such runs as well.
-/
namespace HostPorts

def Pass.Ends (may : (r : Request) → r.Reply → Prop) (good : Outcome → Prop) :
    Pass Outcome → Prop
  | .done outcome => good outcome
  | .call r next => ∀ reply, may r reply → (next reply).Ends may good
  | .alone rest => rest.Ends may good

namespace Cluster

/-- A step of an interleaved run in which requests may fail as well. -/
inductive FaultyStep (fault : Request → StoreError → Prop) (allowed : Cluster → UserAct → Prop)
    (claimPrefix : String) : Cluster → Cluster → Prop where
  | sound {S T : Cluster} (step : S.Step allowed claimPrefix T) :
      FaultyStep fault allowed claimPrefix S T
  | fail {s : Store} {before after : List Running} {r : Request} {next : r.Reply → Pass Outcome}
      {sec : Section} (e : StoreError) (possible : fault r e) :
      FaultyStep fault allowed claimPrefix ⟨s, before ++ ⟨.call r next, sec⟩ :: after⟩
        ⟨s, before ++ ⟨next (.error e), sec.after r (.error e)⟩ :: after⟩

def FaultyReachable (fault : Request → StoreError → Prop) (allowed : Cluster → UserAct → Prop)
    (claimPrefix : String) (S : Cluster) : Prop :=
  Relation.ReflTransGen (FaultyStep fault allowed claimPrefix) {} S

variable {fault : Request → StoreError → Prop} {allowed : Cluster → UserAct → Prop}
  {claimPrefix : String} {S T : Cluster}

theorem FaultyReachable.steps (h : S.FaultyReachable fault allowed claimPrefix)
    (moves : Relation.ReflTransGen (Step allowed claimPrefix) S T) :
    T.FaultyReachable fault allowed claimPrefix :=
  h.trans (Relation.ReflTransGen.mono (fun _ _ => .sound) _ _ moves)

def failAt (S : Cluster) (i : Nat) (e : StoreError) : Option Cluster :=
  match S.running[i]? with
  | some ⟨.call r next, sec⟩ =>
    some ⟨S.store, S.running.take i ++
      ⟨next (.error e), sec.after r (.error e)⟩ :: S.running.drop (i + 1)⟩
  | _ => none

theorem failAt_step {i : Nat} {e : StoreError} (possible : ∀ r, fault r e)
    (failed : S.failAt i e = some T) : S.FaultyStep fault allowed claimPrefix T := by
  unfold failAt at failed
  split at failed
  next r next sec found =>
    cases failed
    have step : FaultyStep fault allowed claimPrefix
        ⟨S.store, S.running.take i ++ ⟨.call r next, sec⟩ :: S.running.drop (i + 1)⟩ _ :=
      .fail e (possible r)
    rwa [split_running found] at step
  · contradiction

/-- Passes that end well on all replies of the store and on all failures are on their way to a
good end. -/
theorem ends_of_faultyReachable {may : (r : Request) → r.Reply → Prop} {good : Outcome → Prop}
    (answers : ∀ now r s, may r (Store.answer now r s).1)
    (fails : ∀ r e, fault r e → may r (.error e))
    (starts : ∀ now k ref, (Reconcile.pass now claimPrefix k ref).Ends may good)
    (reachable : S.FaultyReachable fault allowed claimPrefix) :
    ∀ p ∈ S.running, p.rest.Ends may good := by
  -- one pass goes on, the others stay
  have replace : ∀ {before after : List Running} {p q : Running},
      (∀ r ∈ before ++ p :: after, r.rest.Ends may good) → q.rest.Ends may good →
      ∀ r ∈ before ++ q :: after, r.rest.Ends may good := by
    intro before after p q all ends r member
    rcases List.mem_append.mp member with front | back
    · exact all r (List.mem_append_left _ front)
    · rcases List.mem_cons.mp back with rfl | back
      · exact ends
      · exact all r (List.mem_append_right _ (List.mem_cons_of_mem p back))
  induction reachable with
  | refl =>
    intro p member
    contradiction
  | tail _ step ih =>
    cases step with
    | @fail s before after r next sec e possible =>
      have own := ih ⟨.call r next, sec⟩ (by simp)
      exact replace ih (own (.error e) (fails r e possible))
    | sound step =>
      cases step with
      | act a ok => exact ih
      | start now k ref =>
        intro p member
        rcases List.mem_cons.mp member with rfl | member
        · exact starts now k ref
        · exact ih p member
      | @call s before after r next sec now =>
        have own := ih ⟨.call r next, sec⟩ (by simp)
        exact replace ih (own _ (answers now r s))
      | @enter s before after rest sec free =>
        have own := ih ⟨.alone rest, sec⟩ (by simp)
        exact replace ih own
      | leave =>
        intro p member
        apply ih p
        rcases List.mem_append.mp member with front | back
        · exact List.mem_append_left _ front
        · exact List.mem_append_right _ (List.mem_cons_of_mem _ back)

end Cluster

namespace Discipline

open Cluster (FaultyStep FaultyReachable)

variable {D : Discipline} {claimPrefix : String} {allowed : Cluster → UserAct → Prop}
  {S T : Cluster}

theorem Holds.faultyStep (U : D.Upholds claimPrefix) (C : D.Coordinates allowed) (h : D.Holds S)
    (step : S.FaultyStep D.fault allowed claimPrefix T) : D.Holds T := by
  cases step with
  | sound step => exact h.step U C step
  | @fail s before after r next sec e possible =>
    have own := h.safe ⟨.call r next, sec⟩ (by simp)
    apply h.replace h.inv ((own s h.inv (D.rely_refl sec s)).2 e possible)
    intro other _ apart
    exact ⟨D.rely_refl _ s, apart.after⟩

theorem holds_of_faultyReachable (U : D.Upholds claimPrefix) (C : D.Coordinates allowed)
    (reachable : S.FaultyReachable D.fault allowed claimPrefix) : D.Holds S := by
  induction reachable with
  | refl => exact .start C
  | tail _ step ih => exact ih.faultyStep U C step

end Discipline
end HostPorts
