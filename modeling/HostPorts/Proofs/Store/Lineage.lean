import HostPorts.Proofs.Store.History
import Mathlib.Logic.Relation

/-!
What becomes of the objects of a store. As uids are never given out twice, whatever carries the uid
of an earlier object is a later version of it, however many writes lie between.
-/
namespace HostPorts

/-- How an object may differ from an earlier version of it. -/
abbrev Change := (k : Kind) → Object k → Object k → Prop

abbrev Change.renewal : Change := fun _ o o' => o'.Succeeds o

def Change.Closure (R : Change) : Change := fun k => Relation.ReflTransGen (R k)

theorem Object.succeeds_all {k : Kind} {o o' : Object k} (h : Change.renewal.Closure k o o') :
    o'.Succeeds o := by
  induction h with
  | refl => exact .refl o
  | tail _ step ih => exact step.trans ih

namespace Store

/-- Every entry of the later store is a version of the one that was there, or came new. -/
structure Lineage (R : Change) (s s' : Store) : Prop where
  created_le : s.created ≤ s'.created
  entry : ∀ k key (o' : Object k), s'.find k key = some o' →
    (∃ o, s.find k key = some o ∧ o'.metadata.uid = o.metadata.uid ∧ R k o o') ∨
      ∃ n, s.created < n ∧ n ≤ s'.created ∧ o'.metadata.uid = some (uidOf n)

variable {R : Change} {s s' s'' : Store} {k : Kind} {key key' : String} {o o' : Object k}

theorem Unchanged.succeeds (h : s.Unchanged s') (found : s.find k key = some o)
    (found' : s'.find k key = some o') : o'.Succeeds o := by
  rw [h.find, found] at found'
  cases found'
  exact .refl o

theorem Puts.succeeds {k' : Kind} {new : Option (Object k')} (h : s.Puts s' k' key' new)
    (heir : ∀ x, new = some x → ∀ old, s.find k' key' = some old → x.Succeeds old)
    (found : s.find k key = some o) (found' : s'.find k key = some o') : o'.Succeeds o := by
  refine h.entries (P := fun k key x => ∀ old, s.find k key = some old → x.Succeeds old) heir ?_
    k key o' found' o found
  intro k key x here old here'
  cases here.symm.trans here'
  exact .refl x

theorem answer_succeeds (now : Timestamp) (r : Request) (found : s.find k key = some o)
    (found' : (s.answer now r).2.find k key = some o') : o'.Succeeds o := by
  -- the stored object that a write goes by is the only one there
  have only : ∀ {k : Kind} {key : String} {old new : Object k}, s.find k key = some old →
      new.Succeeds old → ∀ x, some new = some x → ∀ old', s.find k key = some old' →
      x.Succeeds old' := by
    intro k key old new here succeeds x eq old' here'
    cases eq
    cases here.symm.trans here'
    exact succeeds
  have kept : ∀ {k : Kind} {key : String} {old new : Object k}, s.find k key = some old →
      new.Succeeds old → ∀ x, new.kept = some x → ∀ old', s.find k key = some old' →
      x.Succeeds old' := by
    intro k key old new here succeeds x eq
    rw [Object.eq_of_kept eq]
    exact only here succeeds new rfl
  cases r with
  | get | list | listPods =>
    exact (Unchanged.refl s).succeeds found found'
  | createPort port =>
    rcases createPort_cases now port s with same | ⟨free, _, puts⟩
    · exact same.succeeds found found'
    · refine puts.succeeds ?_ found found'
      intro x _ old here
      rw [free] at here
      contradiction
  | updateStatus k' o =>
    rcases updateStatus_cases o s with same | ⟨old, here, _, _, puts⟩
    · exact same.succeeds found found'
    · exact puts.succeeds (kept here ⟨rfl, rfl, rfl, rfl⟩) found found'
  | updateFinalizers k' o =>
    rcases updateFinalizers_cases o s with same | ⟨old, here, _, _, puts⟩
    · exact same.succeeds found found'
    · exact puts.succeeds (kept here ⟨rfl, rfl, rfl, rfl⟩) found found'
  | deletePort port =>
    rcases deletePort_cases now port s with same | ⟨old, here, _, _, ⟨_, puts⟩ | ⟨_, _, puts⟩⟩
    · exact same.succeeds found found'
    · exact puts.succeeds (by simp) found found'
    · exact puts.succeeds (only here (old.marked_succeeds ..)) found found'

theorem perform_succeeds (a : UserAct) (found : s.find k key = some o)
    (found' : (a.perform s).find k key = some o') : o'.Succeeds o := by
  rcases a.perform_cases s with same | ⟨k', x, now, _, free, _, puts⟩ |
    ⟨k', ref, now, old, _, here, ⟨_, puts⟩ | ⟨_, _, puts⟩⟩
  · exact same.succeeds found found'
  · refine puts.succeeds ?_ found found'
    intro _ _ old here
    rw [free] at here
    contradiction
  · exact puts.succeeds (by simp) found found'
  · refine puts.succeeds ?_ found found'
    intro x eq old' here'
    cases eq
    cases here.symm.trans here'
    exact old.marked_succeeds ..

namespace Lineage

theorem of_unchanged (refl : ∀ k (o : Object k), R k o o) (same : s.Unchanged s') :
    Lineage R s s' := by
  refine ⟨Nat.le_of_eq same.created.symm, ?_⟩
  intro k key o found
  exact Or.inl ⟨o, (same.find k key).symm.trans found, rfl, refl k o⟩

theorem trans (transitive : ∀ {k} {o o' o'' : Object k}, R k o o' → R k o' o'' → R k o o'')
    (h : Lineage R s s') (h' : Lineage R s' s'') : Lineage R s s'' := by
  have le := h.created_le
  have le' := h'.created_le
  refine ⟨Nat.le_trans le le', ?_⟩
  intro k key o'' found
  rcases h'.entry k key o'' found with ⟨o', found', uid', change'⟩ | ⟨n, above, below, uid⟩
  · rcases h.entry k key o' found' with ⟨o, found, uid, change⟩ | ⟨n, above, below, uid⟩
    · exact Or.inl ⟨o, found, uid'.trans uid, transitive change change'⟩
    · exact Or.inr ⟨n, above, by omega, uid'.trans uid⟩
  · exact Or.inr ⟨n, by omega, below, uid⟩

theorem closure (h : Lineage R s s') : Lineage R.Closure s s' := by
  refine ⟨h.created_le, ?_⟩
  intro k key o found
  rcases h.entry k key o found with ⟨old, found', uid, change⟩ | fresh
  · exact Or.inl ⟨old, found', uid, .single change⟩
  · exact Or.inr fresh

/-- Objects of one uid are versions of one object, and stand under one key. -/
theorem same (h : Lineage R s s') (orderly : s.Orderly) (found : s.find k key = some o)
    (found' : s'.find k key' = some o') (uid : o'.metadata.uid = o.metadata.uid) :
    key' = key ∧ R k o o' := by
  rcases h.entry k key' o' found' with ⟨old, foundOld, uidOld, change⟩ | ⟨n, above, _, fresh⟩
  · obtain rfl := orderly.distinct k key' old key o foundOld found (uidOld.symm.trans uid)
    rw [found] at foundOld
    cases foundOld
    exact ⟨rfl, change⟩
  · obtain ⟨m, le, given⟩ := orderly.identified k key o found
    rw [fresh, given] at uid
    have := uidOf_injective (Option.some.inj uid)
    omega

theorem of_puts (refl : ∀ k (o : Object k), R k o o) (orderly' : s'.Orderly)
    {new : Option (Object k)} (puts : s.Puts s' k key new)
    (heir : ∀ o, new = some o →
      (∃ old, s.find k key = some old ∧ o.metadata.uid = old.metadata.uid ∧ R k old o) ∨
        o.metadata.uid = some (uidOf (s.created + 1))) : Lineage R s s' := by
  refine ⟨puts.created_le, puts.entries ?_ fun k' _ o old => Or.inl ⟨o, old, rfl, refl k' o⟩⟩
  intro o eq
  rcases heir o eq with version | fresh
  · exact Or.inl version
  · obtain ⟨m, le, given⟩ := orderly'.identified k key o (puts.here.trans eq)
    rw [fresh] at given
    have := uidOf_injective (Option.some.inj given)
    exact Or.inr ⟨s.created + 1, by omega, by omega, fresh⟩

theorem perform (refl : ∀ k (o : Object k), R k o o)
    (marks : ∀ k (o : Object k) now version, R k o (o.marked now version)) (orderly : s.Orderly)
    (act : UserAct) : Lineage R s (act.perform s) := by
  have orderly' := orderly.perform act
  rcases act.perform_cases s with unchanged | ⟨k, o, now, _, _, _, puts⟩ |
    ⟨k, ref, now, old, _, found, ⟨_, puts⟩ | ⟨_, _, puts⟩⟩
  · exact .of_unchanged refl unchanged
  · apply of_puts refl orderly' puts
    intro o' eq
    cases eq
    exact Or.inr rfl
  · apply of_puts refl orderly' puts
    intro o' eq
    contradiction
  · apply of_puts refl orderly' puts
    intro o' eq
    cases eq
    exact Or.inl ⟨old, found, rfl, marks k old now _⟩

end Lineage
end Store
end HostPorts
