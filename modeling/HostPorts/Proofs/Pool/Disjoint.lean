import HostPorts.Proofs.Pass.Courses
import HostPorts.Proofs.Pool.Verdict

/-!
Settled pools do not overlap. A check goes by a listing and writes its verdict later, so two pools
may well be checked at the same time. But a pool that passes is older than every pool that it
overlaps, as those were not there yet when the pools were listed; and of two pools only one is the
older. Verdicts are final and ranges never change, so this stays.
-/
namespace HostPorts

/-- Pools as users may create them: named, in no namespace and without a status. -/
def UserAct.CreatesPlainPools : UserAct → Prop
  | .insert .portPool p _ => p.metadata.name ≠ none ∧ p.metadata.namespace_ = none ∧ p.status = none
  | _ => True

instance : DecidablePred UserAct.CreatesPlainPools
  | .insert k _ _ =>
    match k with
    | .portPool => inferInstanceAs (Decidable (_ ∧ _))
    | .portClass | .portClaim | .port | .pod => isTrue trivial
  | .delete .. => isTrue trivial
  | .failNextStatusWrite => isTrue trivial

inductive VerdictStep : Option ConditionStatus → Option ConditionStatus → Prop where
  | noted : VerdictStep none (some .unknown)
  | passed : VerdictStep (some .unknown) (some .true_)
  | failed : VerdictStep (some .unknown) (some .false_)

theorem PortRange.overlaps_of_contains {a b : PortRange} {n : UInt16} (h : a.Contains n)
    (h' : b.Contains n) : a.overlaps b = true := by
  have left : a.first ≤ b.last := UInt16.le_trans h.1 h'.2
  have right : b.first ≤ a.last := UInt16.le_trans h'.1 h.2
  simp [PortRange.overlaps, left, right]

namespace Object

variable {k : Kind}

def verdict : {k : Kind} → Object k → Option ConditionStatus
  | .portPool, p => PortPool.overlapStatus p
  | _, _ => none

structure Judged (old new : Object k) : Prop where
  succeeds : new.Succeeds old
  verdict : new.verdict = old.verdict ∨ VerdictStep old.verdict new.verdict

theorem Judged.of_status {old new : Object k} (succeeds : new.Succeeds old)
    (same : new.status = old.status) : old.Judged new := by
  refine ⟨succeeds, Or.inl ?_⟩
  cases k with
  | portPool => exact PortPool.overlapStatus_of_status same
  | _ => rfl

theorem judged_all {o o' : Object k} (h : Relation.ReflTransGen Judged o o') :
    o'.Succeeds o ∧ Relation.ReflTransGen VerdictStep o.verdict o'.verdict := by
  have verdicts : ∀ old new : Object k, old.Judged new →
      Relation.ReflTransGen VerdictStep old.verdict new.verdict := by
    intro old new step
    rcases step.verdict with same | next
    · rw [same]
    · exact .single next
  refine ⟨succeeds_all ?_, h.lift' verdict verdicts⟩
  exact Relation.ReflTransGen.mono (fun _ _ step => step.succeeds) _ _ h

end Object

/-- If the pool has passed although it overlaps the other, then it is the older one. -/
def PortPool.Precedes (p q : PortPool) : Prop :=
  p.overlapStatus = some .true_ → p.range.overlaps q.range = true →
    ∀ m n, p.metadata.uid = some (Store.uidOf m) → q.metadata.uid = some (Store.uidOf n) → m < n

namespace PortPool

variable {p p' q q' : PortPool}

theorem Precedes.next (h : p.Precedes q) (left : p'.Succeeds p) (right : q'.Succeeds q)
    (verdict : p'.overlapStatus = some .true_ → p.overlapStatus = some .true_) :
    p'.Precedes q' := by
  intro passed overlaps m n uid uid'
  rw [range, range, left.spec, right.spec] at overlaps
  exact h (verdict passed) overlaps m n (left.uid.symm.trans uid) (right.uid.symm.trans uid')

end PortPool

namespace Store

variable {s s' : Store} {k : Kind} {key : String}

structure Judged (s : Store) : Prop where
  orderly : s.Orderly
  named : s.ClusterWide .portPool
  passed : ∀ key (p : PortPool), s.find .portPool key = some p → p.phase = some .settled →
    p.overlapStatus = some .true_
  precedes : ∀ key key' (p q : PortPool), s.find .portPool key = some p →
    s.find .portPool key' = some q → key ≠ key' → p.Precedes q

structure Admits (s : Store) (key : String) (p : PortPool) : Prop where
  named : p.metadata.name = some key ∧ p.metadata.namespace_ = none
  passed : p.phase = some .settled → PortPool.overlapStatus p = some .true_
  precedes : ∀ key' (q : PortPool), s.find .portPool key' = some q → key' ≠ key →
    p.Precedes q ∧ q.Precedes p

namespace Judged

theorem of_same (h : s.Judged) (orderly : s'.Orderly)
    (same : ∀ key, s'.find .portPool key = s.find .portPool key) : s'.Judged := by
  refine ⟨orderly, h.named.of_same same, ?_, ?_⟩
  · intro key p found
    exact h.passed key p ((same key).symm.trans found)
  · intro key key' p q found found'
    exact h.precedes key key' p q ((same key).symm.trans found) ((same key').symm.trans found')

theorem of_puts (h : s.Judged) (orderly : s'.Orderly) {new : Option PortPool}
    (puts : s.Puts s' .portPool key new) (heir : ∀ p : PortPool, new = some p → s.Admits key p) :
    s'.Judged := by
  refine ⟨orderly, ?_, ?_, ?_⟩
  · exact h.named.of_puts puts fun _ p eq => (heir p eq).named
  · intro key' p found
    rcases puts.find_same found with ⟨_, eq⟩ | ⟨_, old⟩
    · exact (heir p eq).passed
    · exact h.passed key' p old
  · intro key₁ key₂ p q found found' apart
    rcases puts.find_same found with ⟨rfl, eq⟩ | ⟨ne, old⟩ <;>
      rcases puts.find_same found' with ⟨rfl, eq'⟩ | ⟨ne', old'⟩
    · exact absurd rfl apart
    · exact ((heir p eq).precedes key₂ q old' ne').1
    · exact ((heir q eq').precedes key₁ p old ne).2
    · exact h.precedes key₁ key₂ p q old old' apart

theorem empty : Judged {} := by
  refine ⟨.empty, .empty, ?_, ?_⟩
  · intro key p found
    exact absurd found not_find_empty
  · intro key key' p q found
    exact absurd found not_find_empty

theorem admits_next (h : s.Judged) {p p' : PortPool} (here : s.find .portPool key = some p)
    (succeeds : p'.Succeeds p)
    (passed : p'.phase = some .settled → p'.overlapStatus = some .true_)
    (justified : p'.overlapStatus = some .true_ → p.overlapStatus = some .true_ ∨
      ∀ key' (q : PortPool), s.find .portPool key' = some q → key' ≠ key → p'.Precedes q) :
    s.Admits key p' := by
  refine ⟨?_, passed, ?_⟩
  · rw [succeeds.name, succeeds.namespace_]
    exact h.named key p here
  · intro key' q found apart
    refine ⟨?_, (h.precedes key' key q p found here apart).next (.refl q) succeeds id⟩
    intro verdict
    rcases justified verdict with before | precedes
    · exact (h.precedes key key' p q here found (Ne.symm apart)).next succeeds (.refl q)
        (fun _ => before) verdict
    · exact precedes key' q found apart verdict

theorem admits_new (h : s.Judged) {p : PortPool} {i : Identity}
    (named : p.metadata.name = some key ∧ p.metadata.namespace_ = none) (blank : p.status = none)
    (fresh : i.uid = uidOf (s.created + 1)) : s.Admits key (p.identified i) := by
  have phase : (p.identified i).phase = none :=
    congrArg (fun status => status.bind (Object.phaseOf .portPool)) blank
  have verdict : PortPool.overlapStatus (p.identified i) = none := by
    have status : (p.identified i).status = none := blank
    rw [PortPool.overlapStatus, PortPool.overlap?, PortPool.conditions, status]
    rfl
  refine ⟨named, by simp [phase], ?_⟩
  intro key' q found _
  constructor
  · intro passed
    rw [verdict] at passed
    contradiction
  · intro _ _ m n uid uid'
    obtain ⟨l, le, given⟩ := h.orderly.identified _ key' q found
    have same : some i.uid = some (uidOf n) := uid'
    rw [uid] at given
    rw [fresh] at same
    have := uidOf_injective (Option.some.inj given)
    have := uidOf_injective (Option.some.inj same)
    omega

theorem perform (h : s.Judged) {a : UserAct} (ok : a.CreatesPlainPools) :
    (a.perform s).Judged := by
  have orderly := h.orderly.perform a
  rcases a.perform_cases s with same | ⟨k, o, now, is, _, _, puts⟩ |
    ⟨k, ref, now, old, is, found, change⟩
  · exact h.of_same orderly (same.find .portPool)
  · by_cases kinds : k = .portPool
    · subst kinds is
      obtain ⟨named, free, blank⟩ := ok
      obtain ⟨name, hasName⟩ := Option.ne_none_iff_exists'.mp named
      apply h.of_puts orderly puts
      intro p eq
      cases eq
      refine h.admits_new ⟨?_, free⟩ blank rfl
      simp [Object.key, Object.ref, ObjectRef.key, free, hasName]
    · exact h.of_same orderly (puts.find_other (Ne.symm kinds))
  · by_cases kinds : k = .portPool
    · subst kinds
      rcases change with ⟨_, puts⟩ | ⟨_, _, puts⟩
      · exact h.of_puts orderly puts (by simp)
      · apply h.of_puts orderly puts
        intro p eq
        cases eq
        exact h.admits_next found (old.marked_succeeds ..) (h.passed _ old found) Or.inl
    · rcases change with ⟨_, puts⟩ | ⟨_, _, puts⟩ <;>
        exact h.of_same orderly (puts.find_other (Ne.symm kinds))

end Judged
end Store

namespace Discipline

variable {D : Discipline} {claimPrefix key : String} {sec : Section} {s : Store}

theorem PoolWrite.judged {p new : PortPool} (write : D.PoolWrite p s new.status) :
    (new.overlapStatus = p.overlapStatus ∨ VerdictStep p.overlapStatus new.overlapStatus) ∧
      (new.phase = some .settled → new.overlapStatus = some .true_) ∧
      (new.overlapStatus = some .true_ → p.overlapStatus = some .true_ ∨
        D.Once (fun s₁ => D.Seen p s₁ ∧ p.findOverlap s₁.pools.values = none) s) := by
  rcases write.cases with ⟨_, phase, same⟩ | ⟨_, ⟨phase, ⟨before, after⟩ | ⟨before, after⟩⟩ |
    ⟨_, after, before | ⟨before, listed⟩⟩⟩
  · refine ⟨Or.inl same, by simp [phase], ?_⟩
    rw [same]
    exact Or.inl
  · rw [before, after]
    exact ⟨Or.inr .noted, by simp [phase], by simp⟩
  · rw [before, after]
    exact ⟨Or.inr .failed, by simp [phase], by simp⟩
  · exact ⟨Or.inl (after.trans before.symm), fun _ => after, fun _ => Or.inl before⟩
  · refine ⟨Or.inr ?_, fun _ => after, fun _ => Or.inr listed⟩
    rw [before, after]
    exact .passed

/-- A pool gets its verdict once, and passes by a listing in which nothing overlaps it. -/
theorem Deed.judged {p' : PortPool} (deed : D.Deed claimPrefix s sec .portPool key (some p')) :
    ∃ p : PortPool, s.find .portPool key = some p ∧ p.Judged p' ∧
      (p'.phase = some .settled → p'.overlapStatus = some .true_) ∧
      (p'.overlapStatus = some .true_ → p.overlapStatus = some .true_ ∨
        D.Once (fun s₁ => D.Seen p s₁ ∧ p.findOverlap s₁.pools.values = none) s) := by
  generalize is : some p' = new at deed
  cases deed with
  | @poolStatus p status here live write =>
    cases is
    have written : D.PoolWrite p s
        (Object.withVersion (k := .portPool) { p with status := status } s.nextVersion).status :=
      write
    obtain ⟨verdict, rest⟩ := written.judged
    exact ⟨p, here, ⟨p.withStatus_succeeds status s.nextVersion, verdict⟩, rest⟩
  | @mark _ p controlled here deleted first =>
    rw [Object.eq_of_kept is.symm]
    have phase : ((p.withPhase .deleting).withVersion s.nextVersion).phase = some .deleting :=
      p.phase_withPhase controlled .deleting
    have same : PortPool.overlapStatus ((p.withPhase .deleting).withVersion s.nextVersion) =
        PortPool.overlapStatus p := PortPool.overlapStatus_withPhase .deleting
    refine ⟨p, here, ⟨p.withPhase_succeeds _ _, Or.inl same⟩, by simp [phase], ?_⟩
    rw [same]
    exact Or.inl
  | @release _ p here deleted marked held clear =>
    rw [Object.eq_of_kept is.symm]
    have status : (p.released.withVersion s.nextVersion).status = p.status := p.released_status
    have phase : (p.released.withVersion s.nextVersion).phase = some .deleting := by
      rw [Object.phase, status]
      exact marked
    have judged := Object.Judged.of_status (p.released_succeeds s.nextVersion) status
    refine ⟨p, here, judged, by simp [phase], ?_⟩
    rw [PortPool.overlapStatus_of_status status]
    exact Or.inl

end Discipline

namespace Course

def judgement : Course where
  step _ := Object.Judged
  inv := Store.Judged
  refl _ o := .of_status (.refl o) rfl
  orderly h := h.orderly

variable {fault : Request → StoreError → Prop} {s s' : Store} {k : Kind} {key : String}

theorem judgement_allows : judgement.Allows fun _ act => act.CreatesPlainPools where
  start := .empty
  act {S a} valid ok := by
    refine ⟨Store.Judged.perform valid ok, .perform judgement.refl ?_ (judgement.orderly valid) a⟩
    exact fun k o now version => .of_status (o.marked_succeeds now version) rfl

/-- What overlaps a pool that was clear when the pools were listed has come after that. -/
theorem precedes_of_listed {p p' : PortPool} (valid : s.Judged)
    (here : s.find .portPool key = some p) (succeeds : p'.Succeeds p)
    (listed : (judgement.discipline fault).Once (fun s₁ =>
      (judgement.discipline fault).Seen p s₁ ∧ p.findOverlap s₁.pools.values = none) s)
    {key' : String} {q : PortPool} (found : s.find .portPool key' = some q) (apart : key' ≠ key) :
    p'.Precedes q := by
  obtain ⟨s₁, valid₁, ⟨seen, clear⟩, _, since⟩ := listed
  change s₁.Judged at valid₁
  intro _ overlaps m n uid uid'
  rw [PortPool.range, succeeds.spec] at overlaps
  rcases since.entry _ key' q found with ⟨old, found₁, _, course⟩ | ⟨l, above, _, fresh⟩
  · -- it was listed, with another name and the same range
    have listed : old ∈ s₁.pools.values := Store.mem_values.mpr ⟨key', found₁⟩
    have notHit := List.find?_eq_none.mp clear old listed
    have spec := (Object.judged_all course).1.spec
    rw [PortPool.range, spec] at overlaps
    have names : old.metadata.name ≠ p.metadata.name := by
      rw [(valid₁.named key' old found₁).1, (valid.named key p here).1]
      exact fun same => apart (Option.some.inj same)
    simp only [Bool.and_eq_true, decide_eq_true_eq, not_and] at notHit
    exact absurd overlaps (notHit names)
  · obtain ⟨s₀, valid₀, found₀, _, before⟩ := seen
    obtain ⟨j, le, given⟩ := (judgement.orderly valid₀).identified _ _ p found₀
    rw [← succeeds.uid, uid] at given
    rw [uid'] at fresh
    have := Store.uidOf_injective (Option.some.inj given)
    have := Store.uidOf_injective (Option.some.inj fresh)
    have := before.created_le
    omega

theorem judgement_upheld (fault : Request → StoreError → Prop) (claimPrefix : String) :
    (judgement.discipline fault).Upholds claimPrefix where
  idle valid same := ⟨Store.Judged.of_same valid ((judgement.orderly valid).of_unchanged same)
    (same.find .portPool), .of_unchanged judgement.refl same⟩
  deed {sec s s' k key new} valid orderly puts deed := by
    change s.Judged at valid
    by_cases kinds : k = .portPool
    · subst kinds
      constructor
      · apply valid.of_puts orderly puts
        intro p' eq
        subst eq
        obtain ⟨p, here, judged, passed, justified⟩ := deed.judged
        apply valid.admits_next here judged.succeeds passed
        intro verdict
        rcases justified verdict with before | listed
        · exact Or.inl before
        · exact Or.inr fun key' q found apart =>
            precedes_of_listed valid here judged.succeeds listed found apart
      · refine lineage_of_deed orderly puts deed ?_
        intro old p' eq found _
        subst eq
        obtain ⟨p, here, judged, _⟩ := deed.judged
        cases found.symm.trans here
        exact judged
    · refine ⟨valid.of_same orderly (puts.find_other (Ne.symm kinds)), ?_⟩
      refine lineage_of_deed orderly puts deed fun old o _ _ succeeds => ⟨succeeds, Or.inl ?_⟩
      cases k <;> first | rfl | exact absurd rfl kinds

end Course

/-- However passes interleave, pools that are settled at the same time share no port number and
have passed their check; a verdict is final, and nothing edits what a pool asks for. -/
theorem settled_pools_disjoint {claimPrefix : String} {S : Cluster}
    (reachable : S.Reachable (fun _ act => act.CreatesPlainPools) claimPrefix) :
    (∀ key key' (p q : PortPool), S.store.find .portPool key = some p →
        S.store.find .portPool key' = some q → key ≠ key' → p.phase = some .settled →
        q.phase = some .settled → ∀ n, ¬ (p.range.Contains n ∧ q.range.Contains n)) ∧
      (∀ key (p : PortPool), S.store.find .portPool key = some p → p.phase = some .settled →
        p.overlapStatus = some .true_) ∧
      (∀ T, S.Step (fun _ act => act.CreatesPlainPools) claimPrefix T →
        ∀ key key' (p p' : PortPool), S.store.find .portPool key = some p →
          T.store.find .portPool key' = some p' → p'.metadata.uid = p.metadata.uid →
          p'.overlapStatus = p.overlapStatus ∨ VerdictStep p.overlapStatus p'.overlapStatus) ∧
      (∀ T, Relation.ReflTransGen
          (Cluster.Step (fun _ act => act.CreatesPlainPools) claimPrefix) S T →
        ∀ key key' (p p' : PortPool), S.store.find .portPool key = some p →
          T.store.find .portPool key' = some p' → p'.metadata.uid = p.metadata.uid →
          Relation.ReflTransGen VerdictStep p.overlapStatus p'.overlapStatus ∧
            p'.spec = p.spec) ∧
      ∀ (s : Store) key (p p' : PortPool), s.find .portPool key = some p →
        (∀ now r, (s.answer now r).2.find .portPool key = some p' → p'.spec = p.spec) ∧
          ∀ a : UserAct, (a.perform s).find .portPool key = some p' → p'.spec = p.spec := by
  have upheld := Course.judgement_upheld (fun _ _ => False) claimPrefix
  have holds := Discipline.holds_of_reachable upheld (Course.coordinated Course.judgement_allows)
    reachable
  have valid : S.store.Judged := holds.inv
  refine ⟨?_, valid.passed, ?_, ?_, ?_⟩
  · rintro key key' p q found found' apart settled settled' n ⟨within, within'⟩
    obtain ⟨i, _, uid⟩ := valid.orderly.identified _ key p found
    obtain ⟨j, _, uid'⟩ := valid.orderly.identified _ key' q found'
    -- each of the two would be the older one
    have first := valid.precedes key key' p q found found' apart (valid.passed key p found settled)
      (PortRange.overlaps_of_contains within within') i j uid uid'
    have second := valid.precedes key' key q p found' found (Ne.symm apart)
      (valid.passed key' q found' settled') (PortRange.overlaps_of_contains within' within) j i
      uid' uid
    omega
  · intro T move key key' p p' found found' uid
    exact ((Course.lineage_of_step Course.judgement_allows holds move).same valid.orderly found
      found' uid).2.verdict
  · intro T moves key key' p p' found found' uid
    have course := ((Course.lineage_of_steps upheld Course.judgement_allows holds moves).same
      valid.orderly found found' uid).2
    obtain ⟨succeeds, verdicts⟩ := Object.judged_all course
    exact ⟨verdicts, succeeds.spec⟩
  · intro s key p p' found
    exact ⟨fun now r found' => (Store.answer_succeeds now r found found').spec,
      fun a found' => (Store.perform_succeeds a found found').spec⟩

open Cluster (noon)

def poolsCollide : List Cluster.Move :=
  [.act (.insert .portPool ⟨{ name := some "a" }, ⟨"c", 5000, 5009, true⟩, none⟩ noon),
    .act (.insert .portPool ⟨{ name := some "d" }, ⟨"c", 6000, 6009, true⟩, none⟩ noon)] ++
  Cluster.Move.whole .portPool ⟨none, "a"⟩ 2 ++
  Cluster.Move.whole .portPool ⟨none, "a"⟩ 2 ++
  [.start noon .portPool ⟨none, "a"⟩, .call 0 noon, .call 0 noon,
    .act (.insert .portPool ⟨{ name := some "b" }, ⟨"c", 5005, 5014, true⟩, none⟩ noon),
    .call 0 noon, .leave 0] ++
  Cluster.Move.whole .portPool ⟨none, "b"⟩ 2 ++
  Cluster.Move.whole .portPool ⟨none, "b"⟩ 2 ++
  Cluster.Move.whole .portPool ⟨none, "b"⟩ 3 ++
  Cluster.Move.whole .portPool ⟨none, "d"⟩ 2 ++
  Cluster.Move.whole .portPool ⟨none, "d"⟩ 2 ++
  Cluster.Move.whole .portPool ⟨none, "d"⟩ 3

theorem settled_pools_disjoint_collision :
    let s := (Cluster.after "claims" poolsCollide).store
    ∃ a b d : PortPool, s.find .portPool "a" = some a ∧ s.find .portPool "b" = some b ∧
      s.find .portPool "d" = some d ∧ b.overlapStatus = some .false_ ∧
      a.overlapStatus = some .true_ ∧ d.overlapStatus = some .true_ ∧
      ∀ n, ¬ (a.range.Contains n ∧ d.range.Contains n) := by
  intro s
  have reachable : (Cluster.after "claims" poolsCollide).Reachable
      (fun _ act => act.CreatesPlainPools) "claims" :=
    Cluster.reachable_after (fun _ _ fit => fit) (by decide +kernel) (by decide +kernel)
  have phases : ["a", "d"].all (fun name => (s.find .portPool name).any fun p =>
      p.phase = some .settled) = true := by decide +kernel
  have verdict : (s.find .portPool "b").any
      (fun p => decide (PortPool.overlapStatus p = some .false_)) = true := by decide +kernel
  simp only [List.all_cons, List.all_nil, Bool.and_true, Bool.and_eq_true] at phases
  obtain ⟨a, found, settled⟩ := (Option.any_eq_true ..).mp phases.1
  obtain ⟨d, found', settled'⟩ := (Option.any_eq_true ..).mp phases.2
  obtain ⟨b, stored, failed⟩ := (Option.any_eq_true ..).mp verdict
  obtain ⟨disjoint, passed, _⟩ := settled_pools_disjoint reachable
  exact ⟨a, b, d, found, stored, found', of_decide_eq_true failed,
    passed "a" a found (of_decide_eq_true settled),
    passed "d" d found' (of_decide_eq_true settled'),
    disjoint "a" "d" a d found found' (by decide) (of_decide_eq_true settled)
      (of_decide_eq_true settled')⟩

end HostPorts
