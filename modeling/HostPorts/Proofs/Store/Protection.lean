import HostPorts.Proofs.Store.Calls

/-!
What finalizers are good for. An object that has one is not lost, whoever calls: deletion marks it
for good, and it goes just with the call that finds or leaves it marked and without finalizers
(`finalizers_protect`).
-/
namespace HostPorts

def Change.doom : Change := fun _ o o' =>
  ∀ t, o.metadata.deletionTimestamp = some t → o'.metadata.deletionTimestamp = some t

namespace Call

variable {c : Call} {s : Store} {k : Kind} {key : String} {o : Object k}

inductive Updates : Call → {k : Kind} → Object k → Prop where
  | status {k : Kind} (x : Object k) (now : Timestamp) :
      Updates (.request now (.updateStatus k x)) x
  | finalizers {k : Kind} (x : Object k) (now : Timestamp) :
      Updates (.request now (.updateFinalizers k x)) x

/-- The call asks for the deletion of the object and finds it without finalizers, or is an update
that leaves it without finalizers and under deletion. -/
inductive LetsGo (s : Store) (c : Call) {k : Kind} (key : String) (o : Object k) : Prop where
  | deletion (deletes : c.Deletes k key) (unheld : o.metadata.finalizerList = [])
  | update {x updated : Object k} (updates : c.Updates x) (under : x.key = key)
      (gives : c.Gives s updated) (same : updated.metadata.uid = o.metadata.uid)
      (deleted : updated.isBeingDeleted = true) (unheld : updated.metadata.finalizerList = [])

theorem Alters.heir (alters : c.Alters s k key (some o)) :
    (∃ old, s.find k key = some old ∧ o.metadata.uid = old.metadata.uid ∧ Change.doom k old o) ∨
      s.find k key = none ∧ o.metadata.uid = some (Store.uidOf (s.created + 1)) := by
  generalize is : some o = new at alters
  cases alters with
  | inserted free | created free =>
    cases is
    exact Or.inr ⟨free, rfl⟩
  | status found | finalizers found =>
    rw [Object.eq_of_kept is.symm]
    exact Or.inl ⟨_, found, rfl, fun _ doomed => doomed⟩
  | removed => contradiction
  | marked _ found _ live =>
    cases is
    refine Or.inl ⟨_, found, rfl, fun t doomed => ?_⟩
    simp [Object.isBeingDeleted, Metadata.isBeingDeleted, doomed] at live

theorem Alters.letsGo (found : s.find k key = some o) (alters : c.Alters s k key none) :
    c.LetsGo s key o := by
  have purged : ∀ {o' : Object k}, none = o'.kept →
      o'.isBeingDeleted = true ∧ o'.metadata.finalizerList = [] := by
    intro o' gone
    simpa [Object.kept, Object.isPurged] using gone
  generalize is : none = new at alters
  cases alters with
  | inserted | created | marked => contradiction
  | @status _ x old now here _ reply =>
    cases found.symm.trans here
    obtain ⟨deleted, unheld⟩ := purged is
    exact .update (.status x now) rfl (.statusWritten reply) rfl deleted unheld
  | @finalizers _ x old now here _ reply =>
    cases found.symm.trans here
    obtain ⟨deleted, unheld⟩ := purged is
    exact .update (.finalizers x now) rfl (.finalizersWritten reply) rfl deleted unheld
  | removed deletes here unheld =>
    cases found.symm.trans here
    exact .deletion deletes unheld

theorem keeps_or_letsGo (c : Call) (found : s.find k key = some o) :
    (∃ o', (c.perform s).find k key = some o' ∧ o'.metadata.uid = o.metadata.uid ∧
        Change.doom k o o') ∨
      (c.perform s).find k key = none ∧ c.LetsGo s key o := by
  have stays : (c.perform s).find k key = s.find k key → ∃ o',
      (c.perform s).find k key = some o' ∧ o'.metadata.uid = o.metadata.uid ∧ Change.doom k o o' :=
    fun same => ⟨o, same.trans found, rfl, fun _ doomed => doomed⟩
  rcases c.perform_cases s with same | ⟨k', key', new, alters, puts⟩
  · exact Or.inl (stays (same.find k key))
  · by_cases kinds : k = k'
    · subst kinds
      by_cases keys : key = key'
      · subst keys
        cases new with
        | none => exact Or.inr ⟨puts.here, alters.letsGo found⟩
        | some o' =>
          rcases alters.heir with ⟨old, here, uid, doom⟩ | ⟨free, _⟩
          · cases found.symm.trans here
            exact Or.inl ⟨o', puts.here, uid, doom⟩
          · rw [free] at found
            contradiction
      · exact Or.inl (stays (puts.beside key keys))
    · exact Or.inl (stays (puts.find_other kinds key))

end Call
namespace Store

variable {s s' : Store}

theorem lineage_call (orderly : s.Orderly) (c : Call) : Lineage Change.doom s (c.perform s) := by
  have refl : ∀ k (o : Object k), Change.doom k o o := fun _ _ _ doomed => doomed
  rcases c.perform_cases s with same | ⟨k, key, new, alters, puts⟩
  · exact .of_unchanged refl same
  · refine .of_puts refl (orderly.call c) puts ?_
    intro o eq
    subst eq
    exact alters.heir.imp_right And.right

theorem Becomes.lineage (h : s.Becomes s') (sound : s.Sound) : Lineage Change.doom s s' := by
  induction h with
  | refl => exact .of_unchanged (fun _ _ _ doomed => doomed) (.refl s)
  | tail before last ih =>
    obtain ⟨c, rfl⟩ := last
    have orderly := (Becomes.sound before sound).orderly
    exact ih.trans (fun first second t doomed => second t (first t doomed)) (lineage_call orderly c)

end Store

open Store (Becomes)

/-- Whatever calls were made on an empty store, objects stand under their own keys, no two carry
one version, and none under deletion is without a finalizer. From there on a deletion is never
taken back, and an object goes only with a call that lets it go. -/
theorem finalizers_protect {s : Store} (reachable : Becomes {} s) :
    (∀ k key (o : Object k), s.find k key = some o →
      o.key = key ∧
        (∃ n ≤ s.version, o.metadata.resourceVersion = some (Store.versionOf n)) ∧
        (o.isBeingDeleted = true → o.metadata.finalizerList ≠ [])) ∧
      s.VersionsApart ∧
      (∀ (c : Call) k key (o : Object k), s.find k key = some o →
        (∃ o', (c.perform s).find k key = some o' ∧ o'.metadata.uid = o.metadata.uid ∧
            Change.doom k o o') ∨
          (c.perform s).find k key = none ∧ c.LetsGo s key o) ∧
      ∀ s', s.Becomes s' → ∀ k key key' (o o' : Object k), s.find k key = some o →
        s'.find k key' = some o' → o'.metadata.uid = o.metadata.uid →
        key' = key ∧ Change.doom k o o' := by
  have sound := reachable.sound .empty
  refine ⟨?_, sound.apart, fun c k key o found => c.keeps_or_letsGo found, ?_⟩
  · intro k key o found
    exact ⟨sound.orderly.keyed k key o found, sound.orderly.versioned k key o found,
      sound.held k key o found⟩
  · intro s' later k key key' o o' found found' uid
    exact (later.lineage sound).same sound.orderly found found' uid

open Cluster (noon)

def doomedClass : Store := Call.perform (.act (.delete .portClass ⟨none, "c"⟩ noon))
  (Call.perform (.act (.insert .portClass
    ⟨{ name := some "c", finalizers := some ["audit"] }, ⟨⟩, none⟩ noon)) {})

theorem finalizers_protect_released :
    ∃ (o : PortClass) (c : Call), Becomes {} doomedClass ∧
      doomedClass.find .portClass "c" = some o ∧ o.isBeingDeleted = true ∧
      o.metadata.finalizerList ≠ [] ∧ (c.perform doomedClass).find .portClass "c" = none ∧
      c.LetsGo doomedClass "c" o := by
  have stored : ∃ o ∈ doomedClass.find .portClass "c", o.isBeingDeleted = true ∧
      (Call.perform (.request noon (.updateFinalizers .portClass
        { o with metadata := { o.metadata with finalizers := none } })) doomedClass).find
          .portClass "c" = none := by decide +kernel
  obtain ⟨o, found, deleted, gone⟩ := stored
  have reachable : Becomes {} doomedClass := .tail (.single ⟨_, rfl⟩) ⟨_, rfl⟩
  obtain ⟨entries, _, calls, _⟩ := finalizers_protect reachable
  have held := (entries .portClass "c" o found).2.2 deleted
  rcases calls _ .portClass "c" o found with ⟨o', stays, _⟩ | ⟨_, letsGo⟩
  · exact nomatch gone.symm.trans stays
  · exact ⟨o, _, reachable, found, deleted, held, gone, letsGo⟩

end HostPorts
