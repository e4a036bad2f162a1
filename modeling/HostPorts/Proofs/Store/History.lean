import HostPorts.Proofs.Store.Effect

/-!
Stores over time. Versions and uids are never given out twice, so an object that was read earlier
is told from every later one by its version: a write that goes through meets the very object that
was read (`Known`).
-/
namespace HostPorts

inductive UserAct where
  | insert (k : Kind) (o : Object k) (now : Timestamp)
  | delete (k : Kind) (ref : ObjectRef) (now : Timestamp)
  | failNextStatusWrite

def UserAct.perform : UserAct → Store → Store
  | .insert _ o now, s => (s.insert now o).2
  | .delete k ref now, s => (s.delete now k ref.key {}).2
  | .failNextStatusWrite, s => { s with failNextStatusWrite := true }

theorem UserAct.perform_cases (act : UserAct) (s : Store) :
    s.Unchanged (act.perform s) ∨
      (∃ (k : Kind) (o : Object k) (now : Timestamp), act = .insert k o now ∧
        s.find k o.key = none ∧ (act.perform s).created = s.created + 1 ∧
        s.Puts (act.perform s) k o.key (some (o.identified (s.nextIdentity now)))) ∨
      (∃ (k : Kind) (ref : ObjectRef) (now : Timestamp) (old : Object k),
        act = .delete k ref now ∧ s.find k ref.key = some old ∧
        ((old.metadata.finalizerList = [] ∧ s.Puts (act.perform s) k ref.key none) ∨
          (old.metadata.finalizerList ≠ [] ∧ old.isBeingDeleted = false ∧
            s.Puts (act.perform s) k ref.key (some (old.marked now s.nextVersion))))) := by
  cases act with
  | insert k o now =>
    rcases Store.insert_cases now o s with same | ⟨free, created, puts⟩
    · rw [perform, same]
      exact Or.inl (.refl s)
    · exact Or.inr (Or.inl ⟨k, o, now, rfl, free, created, puts⟩)
  | delete k ref now =>
    rcases Store.delete_cases now k ref.key {} s with same | ⟨old, found, _, _, change⟩
    · rw [perform, same]
      exact Or.inl (.refl s)
    · exact Or.inr (Or.inr ⟨k, ref, now, old, rfl, found, change⟩)
  | failNextStatusWrite => exact Or.inl ⟨fun k => by cases k <;> rfl, rfl, rfl⟩

namespace Store

variable {s s' s'' : Store} {k : Kind}

/-- Every entry of the later store is an old one or carries a version given out in between. -/
structure Evolves (s s' : Store) : Prop where
  version_le : s.version ≤ s'.version
  entry : ∀ k key (o : Object k), s'.find k key = some o →
    s.find k key = some o ∨
      ∃ n, s.version < n ∧ n ≤ s'.version ∧ o.metadata.resourceVersion = some (versionOf n)

/-- What holds of every store that began empty: objects stand under their own keys, and versions
and uids are among those given out, a uid with one object only. -/
structure Orderly (s : Store) : Prop where
  keyed : ∀ k key (o : Object k), s.find k key = some o → o.key = key
  versioned : ∀ k key (o : Object k), s.find k key = some o →
    ∃ n ≤ s.version, o.metadata.resourceVersion = some (versionOf n)
  identified : ∀ k key (o : Object k), s.find k key = some o →
    ∃ n ≤ s.created, o.metadata.uid = some (uidOf n)
  distinct : ∀ k key (o : Object k) key' (o' : Object k), s.find k key = some o →
    s.find k key' = some o' → o.metadata.uid = o'.metadata.uid → key = key'

def ClusterWide (s : Store) (k : Kind) : Prop :=
  ∀ key (o : Object k), s.find k key = some o →
    o.metadata.name = some key ∧ o.metadata.namespace_ = none

/-- Read from this store or an earlier one. -/
structure Known (s : Store) (o : Object k) : Prop where
  version : ∃ n ≤ s.version, o.metadata.resourceVersion = some (versionOf n)
  same : ∀ o', s.find k o.key = some o' →
    o'.metadata.resourceVersion = o.metadata.resourceVersion → o' = o

namespace Evolves

theorem refl (s : Store) : Evolves s s := ⟨Nat.le_refl _, fun _ _ _ found => Or.inl found⟩

theorem trans (h : Evolves s s') (h' : Evolves s' s'') : Evolves s s'' := by
  refine ⟨Nat.le_trans h.version_le h'.version_le, ?_⟩
  intro k key o found
  have le := h.version_le
  have le' := h'.version_le
  rcases h'.entry k key o found with found | ⟨n, above, below, carries⟩
  · rcases h.entry k key o found with found | ⟨n, above, below, carries⟩
    · exact Or.inl found
    · exact Or.inr ⟨n, above, by omega, carries⟩
  · exact Or.inr ⟨n, by omega, below, carries⟩

theorem of_unchanged (h : Unchanged s s') : Evolves s s' :=
  ⟨Nat.le_of_eq h.version.symm, fun k key _ found => Or.inl ((h.find k key).symm.trans found)⟩

theorem of_puts {key : String} {new : Option (Object k)} (h : Puts s s' k key new) :
    Evolves s s' := by
  refine ⟨h.version_le, ?_⟩
  intro k' key' o found
  rcases h.find_cases k' key' o found with old | ⟨carries, version⟩
  · exact Or.inl old
  · exact Or.inr ⟨s.version + 1, by omega, by omega, carries⟩

end Evolves

theorem evolves_answer (now : Timestamp) (r : Request) (s : Store) :
    Evolves s (answer now r s).2 := by
  cases r with
  | get k ref => exact Evolves.refl s
  | list k => exact Evolves.refl s
  | listPods ns => exact Evolves.refl s
  | createPort port =>
    rcases createPort_cases now port s with same | ⟨_, _, puts⟩
    · exact Evolves.of_unchanged same
    · exact Evolves.of_puts puts
  | updateStatus k o =>
    rcases updateStatus_cases o s with same | ⟨_, _, _, _, puts⟩
    · exact Evolves.of_unchanged same
    · exact Evolves.of_puts puts
  | updateFinalizers k o =>
    rcases updateFinalizers_cases o s with same | ⟨_, _, _, _, puts⟩
    · exact Evolves.of_unchanged same
    · exact Evolves.of_puts puts
  | deletePort port =>
    rcases deletePort_cases now port s with same | ⟨_, _, _, _, ⟨_, puts⟩ | ⟨_, _, puts⟩⟩
    · exact Evolves.of_unchanged same
    · exact Evolves.of_puts puts
    · exact Evolves.of_puts puts

theorem evolves_perform (act : UserAct) (s : Store) : Evolves s (act.perform s) := by
  rcases act.perform_cases s with same | ⟨_, _, _, _, _, _, puts⟩ |
    ⟨_, _, _, _, _, _, ⟨_, puts⟩ | ⟨_, _, puts⟩⟩
  · exact Evolves.of_unchanged same
  · exact Evolves.of_puts puts
  · exact Evolves.of_puts puts
  · exact Evolves.of_puts puts

namespace ClusterWide

theorem empty : ClusterWide {} k := by
  intro key o found
  exact absurd found not_find_empty

theorem of_same (h : ClusterWide s k) (same : ∀ key, s'.find k key = s.find k key) :
    ClusterWide s' k :=
  fun key o found => h key o ((same key).symm.trans found)

theorem of_unchanged (h : ClusterWide s k) (same : Unchanged s s') : ClusterWide s' k :=
  h.of_same (same.find k)

theorem of_puts {k' : Kind} {key : String} {new : Option (Object k')} (h : ClusterWide s k)
    (puts : Puts s s' k' key new)
    (heir : k' = k → ∀ o, new = some o →
      o.metadata.name = some key ∧ o.metadata.namespace_ = none) : ClusterWide s' k := by
  intro key' o found
  by_cases kinds : k = k'
  · subst kinds
    rcases puts.find_same found with ⟨rfl, eq⟩ | ⟨_, old⟩
    · exact heir rfl o eq
    · exact h key' o old
  · exact h key' o ((puts.find_other kinds key').symm.trans found)

theorem perform (h : ClusterWide s k) {act : UserAct}
    (inserts : ∀ (o : Object k) now, act = .insert k o now →
      o.metadata.name ≠ none ∧ o.metadata.namespace_ = none) : ClusterWide (act.perform s) k := by
  rcases act.perform_cases s with same | ⟨k', o, now, is, _, _, puts⟩ |
    ⟨k', ref, now, old, _, found, ⟨_, puts⟩ | ⟨_, _, puts⟩⟩
  · exact h.of_unchanged same
  · apply h.of_puts puts
    intro kinds o' eq
    subst kinds
    cases eq
    obtain ⟨named, free⟩ := inserts o now is
    obtain ⟨name, hasName⟩ := Option.ne_none_iff_exists'.mp named
    refine ⟨?_, free⟩
    change o.metadata.name = some o.key
    simp [Object.key, Object.ref, ObjectRef.key, free, hasName]
  · apply h.of_puts puts
    intro _ o' eq
    contradiction
  · apply h.of_puts puts
    intro kinds o' eq
    subst kinds
    cases eq
    exact h ref.key old found

end ClusterWide

namespace Known

theorem of_find (h : Orderly s) {key : String} {o : Object k} (found : s.find k key = some o) :
    Known s o := by
  refine ⟨h.versioned k key o found, ?_⟩
  intro o' found' _
  rw [h.keyed k key o found] at found'
  exact Option.some.inj (found'.symm.trans found)

/-- What was known stays known: whatever is stored later carries another version. -/
theorem mono {o : Object k} (h : Known s o) (e : Evolves s s') : Known s' o := by
  obtain ⟨n, le, carries⟩ := h.version
  refine ⟨⟨n, Nat.le_trans le e.version_le, carries⟩, ?_⟩
  intro o' found same
  rcases e.entry k o.key o' found with old | ⟨m, above, _, carries'⟩
  · exact h.same o' old same
  · rw [carries, carries'] at same
    have := versionOf_injective (Option.some.inj same)
    omega

theorem still {key : String} {o : Object k} (h : Known s o) (e : Evolves s s')
    (found : s'.find k key = some o) : s.find k key = some o := by
  rcases e.entry k key o found with old | ⟨n, above, _, carries⟩
  · exact old
  · obtain ⟨m, le, carries'⟩ := h.version
    rw [carries] at carries'
    have := versionOf_injective (Option.some.inj carries')
    omega

end Known

namespace Orderly

theorem empty : Orderly {} := by
  constructor
  · intro k key o found
    exact absurd found not_find_empty
  · intro k key o found
    exact absurd found not_find_empty
  · intro k key o found
    exact absurd found not_find_empty
  · intro k key o key' o' found
    exact absurd found not_find_empty

theorem of_unchanged (h : Orderly s) (same : Unchanged s s') : Orderly s' := by
  constructor
  · intro k key o found
    exact h.keyed k key o ((same.find k key).symm.trans found)
  · intro k key o found
    rw [same.version]
    exact h.versioned k key o ((same.find k key).symm.trans found)
  · intro k key o found
    rw [same.created]
    exact h.identified k key o ((same.find k key).symm.trans found)
  · intro k key o key' o' found found'
    exact h.distinct k key o key' o' ((same.find k key).symm.trans found)
      ((same.find k key').symm.trans found')

theorem of_puts (h : Orderly s) {key : String} {new : Option (Object k)}
    (puts : Puts s s' k key new)
    (heir : ∀ o, new = some o → o.key = key ∧
      ((∃ old, s.find k key = some old ∧ o.metadata.uid = old.metadata.uid) ∨
        (o.metadata.uid = some (uidOf (s.created + 1)) ∧ s'.created = s.created + 1))) :
    Orderly s' := by
  have version := puts.version_le
  have created := puts.created_le
  constructor
  · exact puts.entries (fun o eq => (heir o eq).1) h.keyed
  · intro k' key' o found
    rcases puts.find_cases k' key' o found with old | ⟨carries, next⟩
    · obtain ⟨n, le, is⟩ := h.versioned k' key' o old
      exact ⟨n, by omega, is⟩
    · exact ⟨s.version + 1, by omega, carries⟩
  · have older : ∀ k' key' (o : Object k'), s.find k' key' = some o →
        ∃ n ≤ s'.created, o.metadata.uid = some (uidOf n) := by
      intro k' key' o found
      obtain ⟨n, le, is⟩ := h.identified k' key' o found
      exact ⟨n, by omega, is⟩
    refine puts.entries ?_ older
    intro o eq
    rcases (heir o eq).2 with ⟨old, found, same⟩ | ⟨is, next⟩
    · rw [same]
      exact older k key old found
    · exact ⟨s.created + 1, by omega, is⟩
  · intro k' key' o key'' o' found found' same
    by_cases kinds : k' = k
    · subst kinds
      -- the uid of the new entry is either the one that stood there or nobody's
      have apart : ∀ n other x, new = some n → other ≠ key → s.find k' other = some x →
          n.metadata.uid ≠ x.metadata.uid := by
        intro n other x eq ne foundX uids
        rcases (heir n eq).2 with ⟨old, foundOld, sameOld⟩ | ⟨is, _⟩
        · exact ne (h.distinct k' other x key old foundX foundOld (uids.symm.trans sameOld))
        · obtain ⟨m, le, isX⟩ := h.identified k' other x foundX
          rw [is, isX] at uids
          have := uidOf_injective (Option.some.inj uids)
          omega
      rcases puts.find_same found with ⟨rfl, eq⟩ | ⟨ne, old⟩ <;>
        rcases puts.find_same found' with ⟨rfl, eq'⟩ | ⟨ne', old'⟩
      · rfl
      · exact absurd same (apart o key'' o' eq ne' old')
      · exact absurd same.symm (apart o' key' o eq' ne old)
      · exact h.distinct k' key' o key'' o' old old' same
    · exact h.distinct k' key' o key'' o' ((puts.find_other kinds key').symm.trans found)
        ((puts.find_other kinds key'').symm.trans found') same

theorem of_insert {key : String} {o : Object k} {now : Timestamp} (h : Orderly s)
    (under : o.key = key) (created : s'.created = s.created + 1)
    (puts : Puts s s' k key (some (o.identified (s.nextIdentity now)))) : Orderly s' := by
  apply h.of_puts puts
  intro o' eq
  cases eq
  exact ⟨under, Or.inr ⟨rfl, created⟩⟩

theorem of_rewrite {key : String} {old new : Object k} (h : Orderly s)
    (found : s.find k key = some old) (puts : Puts s s' k key new.kept)
    (ref : new.ref = old.ref) (uid : new.metadata.uid = old.metadata.uid) : Orderly s' := by
  apply h.of_puts puts
  intro o eq
  have same := Object.eq_of_kept eq
  subst same
  refine ⟨?_, Or.inl ⟨old, found, uid⟩⟩
  rw [← h.keyed k key old found, Object.key, Object.key, ref]

theorem of_delete {key : String} {old : Object k} {now : Timestamp} (h : Orderly s)
    (found : s.find k key = some old)
    (change : (old.metadata.finalizerList = [] ∧ Puts s s' k key none) ∨
      (old.metadata.finalizerList ≠ [] ∧ old.isBeingDeleted = false ∧
        Puts s s' k key (some (old.marked now s.nextVersion)))) : Orderly s' := by
  rcases change with ⟨_, puts⟩ | ⟨_, _, puts⟩
  · apply h.of_puts puts
    intro o eq
    contradiction
  · apply h.of_puts puts
    intro o eq
    cases eq
    exact ⟨h.keyed k key old found, Or.inl ⟨old, found, rfl⟩⟩

theorem answer (h : Orderly s) (now : Timestamp) (r : Request) :
    Orderly (Store.answer now r s).2 := by
  cases r with
  | get k ref => exact h
  | list k => exact h
  | listPods ns => exact h
  | createPort port =>
    rcases createPort_cases now port s with same | ⟨_, created, puts⟩
    · exact h.of_unchanged same
    · exact h.of_insert rfl created puts
  | updateStatus k o =>
    rcases updateStatus_cases o s with same | ⟨old, found, _, _, puts⟩
    · exact h.of_unchanged same
    · exact h.of_rewrite found puts rfl rfl
  | updateFinalizers k o =>
    rcases updateFinalizers_cases o s with same | ⟨old, found, _, _, puts⟩
    · exact h.of_unchanged same
    · exact h.of_rewrite found puts rfl rfl
  | deletePort port =>
    rcases deletePort_cases now port s with same | ⟨old, found, _, _, change⟩
    · exact h.of_unchanged same
    · exact h.of_delete found change

theorem perform (h : Orderly s) (act : UserAct) : Orderly (act.perform s) := by
  rcases act.perform_cases s with same | ⟨_, _, _, _, _, created, puts⟩ |
    ⟨_, _, _, _, _, found, change⟩
  · exact h.of_unchanged same
  · exact h.of_insert rfl created puts
  · exact h.of_delete found change

end Orderly

def LeavingHeld (s : Store) : Prop :=
  ∀ k key (o : Object k), s.find k key = some o → o.isBeingDeleted = true →
    o.metadata.finalizerList ≠ []

namespace LeavingHeld

theorem empty : LeavingHeld {} := by
  intro k key o found
  exact absurd found not_find_empty

theorem of_unchanged (h : LeavingHeld s) (same : Unchanged s s') : LeavingHeld s' :=
  fun k key o found => h k key o ((same.find k key).symm.trans found)

theorem of_puts (h : LeavingHeld s) {key : String} {new : Option (Object k)}
    (puts : Puts s s' k key new)
    (heir : ∀ o, new = some o → o.isBeingDeleted = true → o.metadata.finalizerList ≠ []) :
    LeavingHeld s' :=
  puts.entries heir h

theorem of_kept (h : LeavingHeld s) {key : String} {new : Object k}
    (puts : Puts s s' k key new.kept) : LeavingHeld s' := by
  apply h.of_puts puts
  intro o eq deleted
  obtain rfl := Object.eq_of_kept eq
  rcases Object.kept_cases deleted with ⟨_, held⟩ | gone
  · exact held
  · rw [gone] at eq
    contradiction

theorem of_insert (h : LeavingHeld s) {key : String} {o : Object k} {now : Timestamp}
    (puts : Puts s s' k key (some (o.identified (s.nextIdentity now)))) : LeavingHeld s' := by
  apply h.of_puts puts
  intro o' eq deleted
  cases eq
  contradiction

theorem of_delete (h : LeavingHeld s) {key : String} {old : Object k} {now : Timestamp}
    (change : (old.metadata.finalizerList = [] ∧ Puts s s' k key none) ∨
      (old.metadata.finalizerList ≠ [] ∧ old.isBeingDeleted = false ∧
        Puts s s' k key (some (old.marked now s.nextVersion)))) : LeavingHeld s' := by
  rcases change with ⟨_, puts⟩ | ⟨held, _, puts⟩
  · exact h.of_puts puts (by simp)
  · apply h.of_puts puts
    intro o eq _
    cases eq
    exact held

theorem answer (h : LeavingHeld s) (now : Timestamp) (r : Request) :
    LeavingHeld (Store.answer now r s).2 := by
  cases r with
  | get k ref => exact h
  | list k => exact h
  | listPods ns => exact h
  | createPort port =>
    rcases createPort_cases now port s with same | ⟨_, _, puts⟩
    · exact h.of_unchanged same
    · exact h.of_insert puts
  | updateStatus k o =>
    rcases updateStatus_cases o s with same | ⟨_, _, _, _, puts⟩
    · exact h.of_unchanged same
    · exact h.of_kept puts
  | updateFinalizers k o =>
    rcases updateFinalizers_cases o s with same | ⟨_, _, _, _, puts⟩
    · exact h.of_unchanged same
    · exact h.of_kept puts
  | deletePort port =>
    rcases deletePort_cases now port s with same | ⟨_, _, _, _, change⟩
    · exact h.of_unchanged same
    · exact h.of_delete change

theorem perform (h : LeavingHeld s) (act : UserAct) : LeavingHeld (act.perform s) := by
  rcases act.perform_cases s with same | ⟨_, _, _, _, _, _, puts⟩ | ⟨_, _, _, _, _, _, change⟩
  · exact h.of_unchanged same
  · exact h.of_insert puts
  · exact h.of_delete change

theorem run {α : Type} (h : LeavingHeld s) (now : Timestamp) (p : Pass α) :
    LeavingHeld (s.run now p).2 := by
  induction p generalizing s with
  | done a => exact h
  | call r next ih => exact ih _ (h.answer now r)
  | alone rest ih => exact ih h

end LeavingHeld
end Store
end HostPorts
