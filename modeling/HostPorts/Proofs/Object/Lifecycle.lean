import HostPorts.Proofs.Allocation.Choice
import HostPorts.Proofs.Pass.Courses
import HostPorts.Proofs.Pool.Verdict

/-!
The life of an object. Its phase goes through pending to settled and from anywhere into deletion,
one step at a time and never back. What a status records beside the phase comes with the step to
settled and stays: no pass writes a status without what the object had recorded, as its write meets
the very object that it read.
-/
namespace HostPorts

inductive Phase.Next : Option Phase → Option Phase → Prop where
  | pending : Next none (some .pending)
  | settled : Next (some .pending) (some .settled)
  | deleting {phase : Option Phase} (first : phase ≠ some .deleting) :
      Next phase (some .deleting)

/-- A claim's port is recorded from settling on, and is the one named after the claim's uid. -/
structure PortClaim.Recorded (c : PortClaim) : Prop where
  unset : c.phase = none ∨ c.phase = some .pending → boundPortName c = none
  settled : c.phase = some .settled → boundPortName c ≠ none
  own : ∀ name, boundPortName c = some name →
    ∃ uid, c.metadata.uid = some uid ∧ name = portNameForClaim uid

/-- Number and pool are recorded together, from settling on. -/
structure Port.Recorded (p : Port) : Prop where
  unset : p.phase = none ∨ p.phase = some .pending → number p = 0
  settled : p.phase = some .settled → number p ≠ 0
  together : number p = 0 ↔ poolName p = none

namespace Object

variable {k : Kind} {o old new : Object k}

def Recorded : {k : Kind} → Object k → Prop
  | .portClaim, c => PortClaim.Recorded c
  | .port, p => Port.Recorded p
  | _, _ => True

structure Proper (o : Object k) : Prop where
  leaving : o.phase = some .deleting → o.isBeingDeleted = true
  recorded : o.Recorded

/-- What the old status records beside the phase, the new one does too. -/
def Retains : {k : Kind} → Object k → Object k → Prop
  | .portClaim, c, c' => ∀ name, PortClaim.boundPortName c = some name →
    PortClaim.boundPortName c' = some name
  | .port, p, p' => (Port.number p ≠ 0 → Port.number p' = Port.number p) ∧
    ∀ name, Port.poolName p = some name → Port.poolName p' = some name
  | _, _, _ => True

structure Proceeds (old new : Object k) : Prop where
  phase : new.phase = old.phase ∨ Phase.Next old.phase new.phase
  retains : old.Retains new

def SameRecords : {k : Kind} → Object k → Object k → Prop
  | .portClaim, c, c' => PortClaim.boundPortName c' = PortClaim.boundPortName c
  | .port, p, p' => Port.number p' = Port.number p ∧ Port.poolName p' = Port.poolName p
  | _, _, _ => True

theorem SameRecords.of_status (same : new.status = old.status) : old.SameRecords new := by
  cases k with
  | portClaim => exact congrArg (fun status => status.bind ClaimStatus.boundPortName) same
  | port =>
    exact ⟨congrArg (fun status => (status.map PortStatus.port).getD 0) same,
      congrArg (fun status => status.bind PortStatus.poolName) same⟩
  | _ => trivial

theorem sameRecords_withPhase (o : Object k) (phase : Phase) :
    o.SameRecords (o.withPhase phase) := by
  cases k with
  | portClaim => exact PortClaim.boundPortName_withPhase o phase
  | port => exact ⟨Port.number_withPhase o phase, Port.poolName_withPhase o phase⟩
  | _ => trivial

theorem SameRecords.withVersion (same : old.SameRecords new) (version : String) :
    old.SameRecords (new.withVersion version) := by
  cases k with
  | portClaim | port => exact same
  | _ => trivial

theorem SameRecords.retains (same : old.SameRecords new) : old.Retains new := by
  cases k with
  | portClaim => exact fun _ bound => Eq.trans same bound
  | port => exact ⟨fun _ => same.1, fun _ drawn => same.2.trans drawn⟩
  | _ => trivial

theorem Retains.trans {o' : Object k} (h : old.Retains o) (h' : o.Retains o') :
    old.Retains o' := by
  cases k with
  | portClaim => exact fun name bound => h' name (h name bound)
  | port =>
    refine ⟨?_, fun name drawn => h'.2 name (h.2 name drawn)⟩
    intro held
    have same := h.1 held
    exact (h'.1 (by rwa [same])).trans same
  | _ => trivial

theorem Proceeds.of_status (same : new.status = old.status) : old.Proceeds new := by
  refine ⟨Or.inl ?_, (SameRecords.of_status same).retains⟩
  rw [Object.phase, Object.phase, same]

theorem Proceeds.refl (o : Object k) : o.Proceeds o := .of_status rfl

theorem Recorded.retains (h : old.Recorded)
    (unset : old.phase = none ∨ old.phase = some .pending) (new : Object k) : old.Retains new := by
  cases k with
  | portClaim =>
    intro name bound
    rw [h.unset unset] at bound
    contradiction
  | port =>
    have number := h.unset unset
    refine ⟨absurd number, ?_⟩
    intro name drawn
    rw [h.together.mp number] at drawn
    contradiction
  | _ => trivial

theorem Recorded.carry (h : old.Recorded) (same : old.SameRecords new)
    (uid : new.metadata.uid = old.metadata.uid)
    (phase : new.phase = old.phase ∨ new.phase = some .deleting) : new.Recorded := by
  cases k with
  | portClaim =>
    change PortClaim.boundPortName new = PortClaim.boundPortName old at same
    have own := h.own
    rw [← same, ← uid] at own
    rcases phase with still | deleting
    · refine ⟨?_, ?_, own⟩
      · rw [still, same]
        exact h.unset
      · rw [still, same]
        exact h.settled
    · refine ⟨?_, ?_, own⟩ <;> simp [deleting]
  | port =>
    obtain ⟨number, pool⟩ := same
    have together := h.together
    rw [← number, ← pool] at together
    rcases phase with still | deleting
    · refine ⟨?_, ?_, together⟩
      · rw [still, number]
        exact h.unset
      · rw [still, number]
        exact h.settled
    · refine ⟨?_, ?_, together⟩ <;> simp [deleting]
  | _ => trivial

theorem Proper.of_status (h : old.Proper) (same : new.status = old.status)
    (uid : new.metadata.uid = old.metadata.uid)
    (deleted : old.isBeingDeleted = true → new.isBeingDeleted = true) : new.Proper := by
  have phase : new.phase = old.phase := by rw [Object.phase, Object.phase, same]
  refine ⟨?_, h.recorded.carry (SameRecords.of_status same) uid (Or.inl phase)⟩
  rw [phase]
  exact fun leaving => deleted (h.leaving leaving)

theorem Proper.marked (h : old.Proper) (now : Timestamp) (version : String) :
    (old.marked now version).Proper :=
  h.of_status rfl rfl fun _ => rfl

theorem Proper.released (h : old.Proper) (version : String) :
    (old.released.withVersion version).Proper := by
  have status : (old.released.withVersion version).status = old.status := old.released_status
  apply h.of_status status (old.released_succeeds version).uid
  rw [old.released_only]
  exact id

theorem Proper.deleting (controlled : k ≠ .pod) (h : o.Proper) (deleted : o.isBeingDeleted = true)
    (first : o.phase ≠ some .deleting) (version : String) :
    ((o.withPhase .deleting).withVersion version).Proper ∧
      o.Proceeds ((o.withPhase .deleting).withVersion version) := by
  have phase : ((o.withPhase .deleting).withVersion version).phase = some .deleting :=
    phase_withPhase controlled o .deleting
  have succeeds := o.withPhase_succeeds .deleting version
  have records := (o.sameRecords_withPhase .deleting).withVersion version
  refine ⟨⟨?_, h.recorded.carry records succeeds.uid (Or.inr phase)⟩, Or.inr ?_, records.retains⟩
  · intro _
    change (o.withPhase .deleting).metadata.isBeingDeleted = true
    rwa [withPhase_metadata]
  · rw [phase]
    exact .deleting first

theorem Proper.of_blank (blank : o.status = none) : o.Proper := by
  have phase : o.phase = none := by rw [Object.phase, blank]; rfl
  refine ⟨by simp [phase], ?_⟩
  cases k with
  | portClaim =>
    have bound : PortClaim.boundPortName o = none := by rw [PortClaim.boundPortName, blank]; rfl
    exact ⟨fun _ => bound, by simp [phase], by simp [bound]⟩
  | port =>
    have number : Port.number o = 0 := by rw [Port.number, blank]; rfl
    have pool : Port.poolName o = none := by rw [Port.poolName, blank]; rfl
    exact ⟨fun _ => number, by simp [phase], iff_of_true number pool⟩
  | _ => trivial

end Object

namespace Discipline

variable {D : Discipline} {claimPrefix key : String} {sec : Section} {s s' : Store} {k : Kind}

theorem PoolWrite.proceeds {p new : PortPool} (write : D.PoolWrite p s new.status) :
    new.Proper ∧ p.Proceeds new := by
  rcases write.cases with ⟨first, phase, _⟩ | ⟨waiting, ⟨phase, _⟩ | ⟨phase, _⟩⟩
  · refine ⟨⟨by simp [phase], trivial⟩, Or.inr ?_, trivial⟩
    rw [first, phase]
    exact .pending
  · exact ⟨⟨by simp [phase], trivial⟩, Or.inl (phase.trans waiting.symm), trivial⟩
  · refine ⟨⟨by simp [phase], trivial⟩, Or.inr ?_, trivial⟩
    rw [waiting, phase]
    exact .settled

theorem Chosen.positive {p : Port} {a : Allocation} (chosen : D.Chosen p a sec s) : a.port ≠ 0 := by
  cases chosen with
  | intro _ _ _ _ choice =>
    obtain ⟨⟨pool, _, _, _, first, within⟩, _⟩ := Port.allocation_spec choice
    intro zero
    have positive : 1 ≤ a.port := UInt16.le_trans first within.1
    rw [zero] at positive
    contradiction

/-- A deed takes an object one step further at most, or creates a proper one. -/
theorem Deed.proceeds {o : Object k} (deed : D.Deed claimPrefix s sec k key (some o))
    (proper : ∀ old, s.find k key = some old → old.Proper) :
    o.Proper ∧ ((∃ old, s.find k key = some old ∧ old.Proceeds o) ∨ s.find k key = none) := by
  generalize is : some o = new at deed
  cases deed with
  | @classPhase c phase here live next =>
    cases is
    refine ⟨⟨?_, trivial⟩, Or.inl ⟨c, here, Or.inr ?_, trivial⟩⟩
    · rcases next with ⟨_, rfl⟩ | ⟨_, rfl⟩ <;> exact nofun
    · rcases next with ⟨first, rfl⟩ | ⟨waiting, rfl⟩
      · rw [first]
        exact .pending
      · rw [waiting]
        exact .settled
  | @poolStatus p status here live write =>
    cases is
    have written : D.PoolWrite p s
        (Object.withVersion (k := .portPool) { p with status := status } s.nextVersion).status :=
      write
    obtain ⟨proper', proceeds⟩ := written.proceeds
    exact ⟨proper', Or.inl ⟨p, here, proceeds⟩⟩
  | @claimPending c here live new =>
    cases is
    refine ⟨⟨nofun, fun _ => rfl, nofun, nofun⟩,
      Or.inl ⟨c, here, Or.inr ?_, (proper c here).recorded.retains (Or.inl new) _⟩⟩
    rw [new]
    exact .pending
  | @claimBound c uid here live waiting identity =>
    cases is
    refine ⟨⟨nofun, ?_, nofun, ?_⟩,
      Or.inl ⟨c, here, Or.inr ?_, (proper c here).recorded.retains (Or.inr waiting) _⟩⟩
    · rintro (impossible | impossible) <;> exact nomatch impossible
    · intro name bound
      exact ⟨uid, identity, (Option.some.inj bound).symm⟩
    · rw [waiting]
      exact .settled
  | backing _ _ _ _ free =>
    cases is
    exact ⟨.of_blank rfl, Or.inr free⟩
  | @portPending p here live new =>
    cases is
    refine ⟨⟨nofun, fun _ => rfl, nofun, iff_of_true rfl rfl⟩,
      Or.inl ⟨p, here, Or.inr ?_, (proper p here).recorded.retains (Or.inl new) _⟩⟩
    rw [new]
    exact .pending
  | @allocate _ p a here live waiting chosen =>
    cases is
    have positive : a.port ≠ 0 := chosen.positive
    refine ⟨⟨nofun, ?_, fun _ => positive, iff_of_false positive nofun⟩,
      Or.inl ⟨p, here, Or.inr ?_, (proper p here).recorded.retains (Or.inr waiting) _⟩⟩
    · rintro (impossible | impossible) <;> exact nomatch impossible
    · rw [waiting]
      exact .settled
  | @reclaim p old r _ seen settled owner orphan found same gone =>
    rcases gone with ⟨_, none⟩ | ⟨_, now, some⟩
    · rw [none] at is
      contradiction
    · rw [some] at is
      cases is
      exact ⟨(proper old found).marked now s.nextVersion,
        Or.inl ⟨old, found, .of_status rfl⟩⟩
  | @mark _ o' controlled here deleted first =>
    rw [Object.eq_of_kept is.symm]
    obtain ⟨proper', proceeds⟩ :=
      (proper o' here).deleting controlled deleted first s.nextVersion
    exact ⟨proper', Or.inl ⟨o', here, proceeds⟩⟩
  | @release _ o' here deleted marked held clear =>
    rw [Object.eq_of_kept is.symm]
    exact ⟨(proper o' here).released s.nextVersion,
      Or.inl ⟨o', here, .of_status o'.released_status⟩⟩

end Discipline

def UserAct.CreatesBlank : UserAct → Prop
  | .insert _ o _ => o.status = none
  | _ => True

instance : DecidablePred UserAct.CreatesBlank
  | .insert _ o _ => inferInstanceAs (Decidable (o.status = none))
  | .delete .. => isTrue trivial
  | .failNextStatusWrite => isTrue trivial

namespace Store

variable {s s' : Store} {k : Kind} {key : String}

structure Proper (s : Store) : Prop where
  orderly : s.Orderly
  proper : ∀ k key (o : Object k), s.find k key = some o → o.Proper

theorem Proper.of_unchanged (h : s.Proper) (same : s.Unchanged s') : s'.Proper := by
  refine ⟨h.orderly.of_unchanged same, ?_⟩
  intro k key o found
  exact h.proper k key o ((same.find k key).symm.trans found)

theorem Proper.of_puts (h : s.Proper) (orderly : s'.Orderly) {new : Option (Object k)}
    (puts : s.Puts s' k key new) (heir : ∀ o, new = some o → o.Proper) : s'.Proper :=
  ⟨orderly, puts.entries heir h.proper⟩

theorem Proper.empty : Proper {} := by
  refine ⟨.empty, ?_⟩
  intro k key o found
  exact absurd found not_find_empty

theorem each_perform {P : (k : Kind) → Object k → Prop}
    (h : ∀ k key (o : Object k), s.find k key = some o → P k o) {a : UserAct} (ok : a.CreatesBlank)
    (blank : ∀ k (o : Object k), o.status = none → P k o)
    (marked : ∀ k (o : Object k) now version, P k o → P k (o.marked now version)) :
    ∀ k key (o : Object k), (a.perform s).find k key = some o → P k o := by
  rcases a.perform_cases s with same | ⟨k, o, now, is, _, _, puts⟩ |
    ⟨k, ref, now, old, _, found, ⟨_, puts⟩ | ⟨_, _, puts⟩⟩
  · intro k key o found
    exact h k key o ((same.find k key).symm.trans found)
  · subst is
    refine puts.entries (P := fun k _ => P k) ?_ h
    intro o' eq
    cases eq
    exact blank k _ ok
  · exact puts.entries (P := fun k _ => P k) (by simp) h
  · refine puts.entries (P := fun k _ => P k) ?_ h
    intro o' eq
    cases eq
    exact marked k old now _ (h k _ old found)

theorem Proper.perform (h : s.Proper) {a : UserAct} (ok : a.CreatesBlank) :
    (a.perform s).Proper :=
  ⟨h.orderly.perform a,
    each_perform h.proper ok (fun _ _ => .of_blank) fun _ _ now version proper =>
      proper.marked now version⟩

end Store

namespace Course

def lives : Course where
  step _ := Object.Proceeds
  inv := Store.Proper
  refl _ := .refl
  orderly h := h.orderly

theorem lives_allow : lives.Allows fun _ act => act.CreatesBlank where
  start := .empty
  act {_ a} valid ok := ⟨Store.Proper.perform valid ok,
    .perform lives.refl (fun _ _ _ _ => .of_status rfl) (lives.orderly valid) a⟩

theorem lives_upheld (fault : Request → StoreError → Prop) (claimPrefix : String) :
    (lives.discipline fault).Upholds claimPrefix where
  idle valid same := ⟨valid.of_unchanged same, .of_unchanged lives.refl same⟩
  deed {sec s s' k key new} valid orderly puts deed := by
    constructor
    · apply valid.of_puts orderly puts
      intro o eq
      subst eq
      exact (deed.proceeds (valid.proper k key)).1
    · refine lineage_of_deed orderly puts deed ?_
      intro old o eq found _
      subst eq
      rcases (deed.proceeds (valid.proper k key)).2 with ⟨old', found', proceeds⟩ | free
      · cases found.symm.trans found'
        exact proceeds
      · rw [free] at found
        contradiction

end Course

theorem Object.proceeds_all {k : Kind} {o o' : Object k}
    (h : Relation.ReflTransGen Object.Proceeds o o') :
    Relation.ReflTransGen Phase.Next o.phase o'.phase ∧ o.Retains o' := by
  have phases : ∀ old new : Object k, old.Proceeds new →
      Relation.ReflTransGen Phase.Next old.phase new.phase := by
    intro old new step
    rcases step.phase with still | next
    · rw [still]
    · exact .single next
  refine ⟨h.lift' Object.phase phases, ?_⟩
  induction h with
  | refl => exact (Object.Proceeds.refl o).retains
  | tail _ step ih => exact ih.trans step.retains

/-- However passes interleave, phases go forward one step at a time, deletion is recorded only
under deletion, and what is recorded with the step to settled stays. -/
theorem phases_advance {claimPrefix : String} {S : Cluster}
    (reachable : S.Reachable (fun _ act => act.CreatesBlank) claimPrefix) :
    (∀ k key (o : Object k), S.store.find k key = some o → o.Proper) ∧
      (∀ T, S.Step (fun _ act => act.CreatesBlank) claimPrefix T →
        ∀ k key key' (o o' : Object k), S.store.find k key = some o →
          T.store.find k key' = some o' → o'.metadata.uid = o.metadata.uid → o.Proceeds o') ∧
      ∀ T, Relation.ReflTransGen (Cluster.Step (fun _ act => act.CreatesBlank) claimPrefix) S T →
        ∀ k key key' (o o' : Object k), S.store.find k key = some o →
          T.store.find k key' = some o' → o'.metadata.uid = o.metadata.uid →
          Relation.ReflTransGen Phase.Next o.phase o'.phase ∧ o.Retains o' := by
  have upheld := Course.lives_upheld (fun _ _ => False) claimPrefix
  have holds := Discipline.holds_of_reachable upheld (Course.coordinated Course.lives_allow)
    reachable
  refine ⟨holds.inv.proper, ?_, ?_⟩
  · intro T move k key key' o o' found found' uid
    exact ((Course.lineage_of_step Course.lives_allow holds move).same holds.inv.orderly found
      found' uid).2
  · intro T moves k key key' o o' found found' uid
    exact Object.proceeds_all ((Course.lineage_of_steps upheld Course.lives_allow holds moves).same
      holds.inv.orderly found found' uid).2

open Cluster (noon)

def portSettles : List Cluster.Move :=
  [.act (.insert .portClass ⟨{ name := some "c" }, ⟨⟩, none⟩ noon),
    .act (.insert .portPool ⟨{ name := some "n" }, ⟨"c", 5000, 5009, true⟩, none⟩ noon),
    .act (.insert .port
      ⟨{ name := some "a", finalizers := some [ProtectionToken.ofPort.text] }, ⟨none, "c"⟩, none⟩
      noon)] ++
  Cluster.Move.whole .portPool ⟨none, "n"⟩ 2 ++
  Cluster.Move.whole .portPool ⟨none, "n"⟩ 2 ++
  Cluster.Move.whole .portPool ⟨none, "n"⟩ 3 ++
  Cluster.Move.whole .port ⟨none, "a"⟩ 2 ++
  [.start noon .port ⟨none, "a"⟩, .call 0 noon, .call 0 noon, .enter 0, .call 0 noon, .call 0 noon,
    .call 0 noon, .leave 0]

def portLeaves : List Cluster.Move :=
  [.act (.delete .port ⟨none, "a"⟩ noon), .act .failNextStatusWrite] ++
  Cluster.Move.whole .port ⟨none, "a"⟩ 2 ++
  Cluster.Move.whole .port ⟨none, "a"⟩ 2

theorem phases_advance_leaving :
    let S := Cluster.after "claims" portSettles
    ∃ (T : Cluster) (p p' : Port), S.store.find .port "a" = some p ∧
      T.store.find .port "a" = some p' ∧ p.phase = some .settled ∧ p'.phase = some .deleting ∧
      Relation.ReflTransGen Phase.Next p.phase p'.phase ∧ p.number = 5000 ∧ p'.number = 5000 := by
  intro S
  have reachable : S.Reachable (fun _ act => act.CreatesBlank) "claims" :=
    Cluster.reachable_after (fun _ _ fit => fit) (by decide +kernel) (by decide +kernel)
  have before : (S.store.find .port "a").any
      (fun p => decide (p.phase = some .settled ∧ Port.number p = 5000)) = true := by decide +kernel
  obtain ⟨p, found, is⟩ := (Option.any_eq_true ..).mp before
  obtain ⟨settled, number⟩ := of_decide_eq_true is
  have ends : (S.playAll "claims" portLeaves).any (fun T => (T.store.find .port "a").any fun p' =>
      decide (p'.phase = some .deleting ∧
        (S.store.find .port "a").map (·.metadata.uid) = some p'.metadata.uid)) = true := by
    decide +kernel
  obtain ⟨T, played, is⟩ := (Option.any_eq_true ..).mp ends
  obtain ⟨p', found', is⟩ := (Option.any_eq_true ..).mp is
  obtain ⟨deleting, same⟩ := of_decide_eq_true is
  rw [found] at same
  have moves : Relation.ReflTransGen (Cluster.Step (fun _ act => act.CreatesBlank) "claims") S T :=
    Cluster.playAll_steps (fun _ _ fit => fit) (by decide +kernel) played
  obtain ⟨forward, retains⟩ := (phases_advance reachable).2.2 T moves .port "a" "a" p p' found
    found' (Option.some.inj same).symm
  refine ⟨T, p, p', found, found', settled, deleting, forward, number, ?_⟩
  exact (retains.1 (by rw [number]; decide)).trans number

end HostPorts
