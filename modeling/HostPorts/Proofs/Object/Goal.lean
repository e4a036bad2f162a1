import HostPorts.Proofs.Claim.Backing
import HostPorts.Proofs.Pass.Quiet
import HostPorts.Proofs.Pool.Disjoint

/-!
Where passes come to rest. In a store that no pass changes any more every object is at its goal:
what nobody asked to delete does its job, or says why it cannot, and what is to be deleted waits for
a dependent or for somebody else's finalizer (`fixpoint_is_goal`). Whatever is due for an object
would change the store, but for the reasons to rest; and of these each is a goal in the stores that
runs come to.
-/
namespace HostPorts

def Object.StandsAlone : {k : Kind} → Object k → Prop
  | .port, p => p.spec.claimRef = none ∧ ¬ "claim-".toList <+: (p.metadata.name.getD "").toList
  | _, _ => True

instance {k : Kind} (o : Object k) : Decidable o.StandsAlone :=
  match k with
  | .port => inferInstanceAs (Decidable (_ ∧ _))
  | .portClass | .portPool | .portClaim | .pod => isTrue trivial

/-- What users create, other than pods, has a name, a namespace just if it is a claim, no status,
and no claim of its own. -/
def UserAct.CreatesPlain : UserAct → Prop
  | .insert k o _ => k ≠ .pod → o.metadata.name ≠ none ∧
    (o.metadata.namespace_ = none ↔ k.isNamespaced = false) ∧ o.status = none ∧ o.StandsAlone
  | _ => True

instance : DecidablePred UserAct.CreatesPlain
  | .insert .. => inferInstanceAs (Decidable (_ → _))
  | .delete .. => isTrue trivial
  | .failNextStatusWrite => isTrue trivial

namespace UserAct.CreatesPlain

variable {a : UserAct}

theorem blank (h : a.CreatesPlain) : a.CreatesBlank := by
  cases a with
  | insert k o now =>
    cases k with
    | pod =>
      change o.status = none
      cases o.status with
      | none => rfl
      | some status => exact status.elim
    | _ => exact (h nofun).2.2.1
  | _ => trivial

theorem plainPools (h : a.CreatesPlain) : a.CreatesPlainPools := by
  cases a with
  | insert k o now =>
    cases k with
    | portPool =>
      obtain ⟨named, within, blank, _⟩ := h nofun
      exact ⟨named, within.mpr rfl, blank⟩
    | _ => trivial
  | _ => trivial

theorem unbacked (h : a.CreatesPlain) : a.CreatesUnbacked := by
  cases a with
  | insert k o now =>
    cases k with
    | portClaim =>
      obtain ⟨named, within, blank, _⟩ := h nofun
      exact ⟨named, fun none => by simpa [Kind.isNamespaced] using within.mp none, blank⟩
    | port => exact (h nofun).2.2.2
    | _ => trivial
  | _ => trivial

end UserAct.CreatesPlain

namespace Store

variable {s s' : Store} {k : Kind} {key : String}

theorem Placed.empty : Placed {} := by
  intro k key o _ found
  exact absurd found not_find_empty

theorem Placed.perform (h : s.Placed) {a : UserAct} (ok : a.CreatesPlain) :
    (a.perform s).Placed := by
  rcases a.perform_cases s with same | ⟨k, o, now, is, _, _, puts⟩ |
    ⟨k, ref, now, old, _, found, ⟨_, puts⟩ | ⟨_, _, puts⟩⟩
  · exact h.of_unchanged same
  · subst is
    apply h.of_puts puts
    intro o' eq controlled
    cases eq
    obtain ⟨named, within, _⟩ := ok controlled
    exact ⟨rfl, named, within⟩
  · exact h.of_puts puts (by simp)
  · apply h.of_next puts found
    intro o eq
    cases eq
    exact old.marked_succeeds ..

/-- What serial runs keep, if users create plain objects. -/
structure Tended (s : Store) : Prop where
  backed : s.Backed
  judged : s.Judged
  proper : s.Proper
  placed : s.Placed
  held : s.LeavingHeld

theorem tended_of_seriallyReachable {claimPrefix : String}
    (reachable : SeriallyReachable (UserStep UserAct.CreatesPlain) claimPrefix s) : s.Tended := by
  have backed : s.Backed :=
    Discipline.inv_of_userSteps (Course.backings_upheld (fun _ _ => False) claimPrefix) .empty
      (fun valid ok => (Backed.perform valid ok.unbacked).1) reachable
  have judged : s.Judged :=
    Discipline.inv_of_userSteps (Course.judgement_upheld (fun _ _ => False) claimPrefix) .empty
      (fun valid ok => Judged.perform valid ok.plainPools) reachable
  have proper : s.Proper :=
    Discipline.inv_of_userSteps (Course.lives_upheld (fun _ _ => False) claimPrefix) .empty
      (fun valid ok => Proper.perform valid ok.blank) reachable
  have keeps : s.Placed ∧ s.LeavingHeld := by
    clear backed judged proper
    induction reachable with
    | refl => exact ⟨.empty, .empty⟩
    | tail _ step ih =>
      obtain ⟨placed, held⟩ := ih
      cases step with
      | other acts =>
        obtain ⟨a, ok⟩ := acts
        exact ⟨placed.perform ok, held.perform a⟩
      | pass now later k ref =>
        exact ⟨placed.strokes (Reconcile.strokes_pass placed now later claimPrefix k ref),
          held.run later _⟩
  exact ⟨backed, judged, proper, keeps.1, keeps.2⟩

/-- What is wanted of an object that nobody asked to delete. -/
def Achieves (s : Store) (key : String) : {k : Kind} → Object k → Prop
  | .portClass, c => c.phase = some .settled
  | .portPool, p => p.phase = some .settled ∧ PortPool.overlapStatus p = some .true_ ∨
    p.phase = some .pending ∧ PortPool.overlapStatus p = some .false_
  | .portClaim, c => c.phase = some .settled ∧
    ∃ (uid : String) (p : Port), c.metadata.uid = some uid ∧
      s.find .port (portNameForClaim uid) = some p
  | .port, p => p.phase = some .settled ∧
      (∀ r, p.spec.claimRef = some r →
        ∃ c, s.find .portClaim (ObjectRef.key ⟨some r.namespace_, r.name⟩) = some c ∧
          c.metadata.namespace_ = some r.namespace_ ∧ c.metadata.name = some r.name ∧
          c.metadata.uid = some r.uid) ∨
    p.phase = some .pending ∧
      (s.find .portClass p.spec.classRef = none ∨
        ∀ (poolKey : String) (pool : PortPool), s.find .portPool poolKey = some pool →
          Allocation.isEligible p.spec.classRef pool = true → 1 ≤ pool.spec.first →
          ∀ n, pool.range.Contains n →
            ∃ (key' : String) (q : Port), key' ≠ key ∧ s.find .port key' = some q ∧ q.number = n)
  | .pod, _ => True

/-- What is wanted of an object under deletion, while something keeps it. -/
def Leaves (s : Store) (claimPrefix : String) (o : Object k) : Prop :=
  o.phase = some .deleting ∧
    (o.isProtected = false ∧ o.metadata.finalizerList ≠ [] ∨ s.HasDependent claimPrefix o)

structure AtGoal (s : Store) (claimPrefix key : String) (o : Object k) : Prop where
  achieves : o.isBeingDeleted = false → s.Achieves key o
  leaves : o.isBeingDeleted = true → s.Leaves claimPrefix o

theorem AtGoal.of_live {claimPrefix : String} {o : Object k} (live : o.isBeingDeleted = false)
    (goal : s.Achieves key o) : s.AtGoal claimPrefix key o :=
  ⟨fun _ => goal, fun deleted => by simp [live] at deleted⟩

theorem AtGoal.of_deleted {claimPrefix : String} {o : Object k} (deleted : o.isBeingDeleted = true)
    (goal : s.Leaves claimPrefix o) : s.AtGoal claimPrefix key o :=
  ⟨fun live => by simp [deleted] at live, fun _ => goal⟩

theorem Placed.held_by_others (placed : s.Placed) {p : Port} {e : AllocationError}
    (found : s.find .port key = some p)
    (failed : p.allocation s.pools.values s.ports.values = .error e) :
    ∀ (poolKey : String) (pool : PortPool), s.find .portPool poolKey = some pool →
      Allocation.isEligible p.spec.classRef pool = true → 1 ≤ pool.spec.first →
      ∀ n, pool.range.Contains n →
        ∃ (key' : String) (q : Port), key' ≠ key ∧ s.find .port key' = some q ∧ q.number = n := by
  intro poolKey pool foundPool fit positive n within
  have listed : pool ∈ s.pools.values := Store.mem_values (k := .portPool).mpr ⟨poolKey, foundPool⟩
  obtain ⟨q, among, apart, holds⟩ := Port.allocation_error failed listed fit positive within
  obtain ⟨key', foundQ⟩ := Store.mem_values (k := .port).mp among
  refine ⟨key', q, ?_, foundQ, holds⟩
  rintro rfl
  rw [(placed .port _ q nofun foundQ).displayName, (placed .port _ p nofun found).displayName]
    at apart
  exact apart rfl

namespace Tended

theorem goal_of_idle {claimPrefix : String} {o : Object k} {outcome : Outcome} (h : s.Tended)
    (controlled : k ≠ .pod) (found : s.find k key = some o)
    (idle : Reconcile.Idle claimPrefix s o outcome) : s.AtGoal claimPrefix key o := by
  cases idle with
  | released deleted marked free =>
    exact .of_deleted deleted ⟨marked, Or.inl ⟨free, h.held k key o found deleted⟩⟩
  | needed deleted marked dependent => exact .of_deleted deleted ⟨marked, Or.inr dependent⟩
  | settled kinds live settled =>
    apply AtGoal.of_live live
    rcases kinds with rfl | rfl
    · exact settled
    · exact Or.inl ⟨settled, h.judged.passed key o found settled⟩
  | overlapping live waiting failed => exact .of_live live (Or.inr ⟨waiting, failed⟩)
  | @backed c name live settled backing stored =>
    apply AtGoal.of_live live
    have recorded := (h.proper.proper .portClaim key c found).recorded
    obtain ⟨bound, records⟩ := Option.ne_none_iff_exists'.mp (recorded.settled settled)
    obtain ⟨uid, identity, own⟩ := recorded.own bound records
    rw [PortClaim.backingPortName, records, own] at backing
    cases backing
    obtain ⟨p, stored⟩ := Option.ne_none_iff_exists'.mp stored
    exact ⟨settled, uid, p, identity, stored⟩
  | @incomplete c field live phase missing =>
    have within := (h.placed .portClaim key c (by decide) found).within
    obtain ⟨n, _, identity⟩ := h.proper.orderly.identified .portClaim key c found
    rcases missing with none | none
    · have := within.mp none
      contradiction
    · rw [identity] at none
      contradiction
  | classless live waiting absent => exact .of_live live (Or.inr ⟨waiting, Or.inl absent⟩)
  | unserved live waiting served failed =>
    exact .of_live live (Or.inr ⟨waiting, Or.inr (h.placed.held_by_others found failed)⟩)
  | @owned p live settled owner =>
    apply AtGoal.of_live live
    refine Or.inl ⟨settled, fun r refers => ?_⟩
    obtain ⟨c, stored, uid⟩ := (Option.any_eq_true ..).mp (owner r refers)
    have identity : c.metadata.uid = some r.uid := of_decide_eq_true uid
    have owned := (h.backed.fits .port key p found).1 r refers
    obtain ⟨within, named, _⟩ := owned.claim _ c stored identity
    exact ⟨c, stored, within, named, identity⟩
  | misplaced _ live leaving =>
    have deleted := (h.proper.proper k key o found).leaving leaving
    rw [live] at deleted
    contradiction

end Tended
end Store

/-- In a store that a run has come to and that no pass over a stored object changes any more, each
object is at its goal. -/
theorem fixpoint_is_goal {claimPrefix : String} {s : Store} {now later : Timestamp}
    (reachable : SeriallyReachable (UserStep UserAct.CreatesPlain) claimPrefix s)
    (unarmed : s.failNextStatusWrite = false)
    (still : ∀ (k : Kind) (key : String) (o : Object k), s.find k key = some o →
      s.SameObjects (s.run later (Reconcile.pass now claimPrefix k o.ref)).2) :
    ∀ (k : Kind) (key : String) (o : Object k), k ≠ .pod → s.find k key = some o →
      s.AtGoal claimPrefix key o := by
  intro k key o controlled found
  have tended := Store.tended_of_seriallyReachable reachable
  have placed := tended.placed k key o controlled found
  have same := still k key o found
  have stands : s.find k (Reconcile.subject k o.ref).key = some o := by rwa [placed.subject]
  obtain ⟨rest, due, comes⟩ := Reconcile.comes_to_due now later claimPrefix controlled stands
  rw [comes] at same
  have here : s.find k o.key = some o := by rwa [placed.keyed]
  obtain ⟨outcome, _, idle⟩ := due.idle_of_same tended.proper here
    (Or.inr ⟨unarmed, by rwa [placed.keyed]⟩) same
  exact tended.goal_of_idle controlled found idle

open Cluster (noon)

/-- The only number of the pool is given to the port of a claim that is to be deleted but that a pod
still names; one more port waits for a number and one for a class. A second pool overlaps, and a
third leaves without a token. -/
def crowded : List SerialMove :=
  [.act (.insert .portClass ⟨{ name := some "c" }, ⟨⟩, none⟩ noon),
    .pass noon .portClass ⟨none, "c"⟩, .pass noon .portClass ⟨none, "c"⟩,
    .act (.insert .portPool ⟨{ name := some "m" }, ⟨"c", 5000, 5000, true⟩, none⟩ noon)] ++
  List.replicate 3 (.pass noon .portPool ⟨none, "m"⟩) ++
  [.act (.insert .portPool ⟨{ name := some "n" }, ⟨"c", 5000, 5009, true⟩, none⟩ noon)] ++
  List.replicate 3 (.pass noon .portPool ⟨none, "n"⟩) ++
  [.act (.insert .portPool
      ⟨{ name := some "o", finalizers := some ["audit"] }, ⟨"c", 6000, 6000, true⟩, none⟩ noon),
    .act (.delete .portPool ⟨none, "o"⟩ noon), .pass noon .portPool ⟨none, "o"⟩,
    .act (.insert .portClaim
      ⟨{ name := some "web", namespace_ := some "t",
         finalizers := some [ProtectionToken.ofClaim.text] }, ⟨"c"⟩, none⟩ noon),
    .pass noon .portClaim ⟨some "t", "web"⟩, .pass noon .portClaim ⟨some "t", "web"⟩,
    .pass noon .port ⟨none, portNameForClaim (Store.uidOf 5)⟩,
    .pass noon .port ⟨none, portNameForClaim (Store.uidOf 5)⟩,
    .act (.insert .port ⟨{ name := some "x" }, ⟨none, "c"⟩, none⟩ noon),
    .act (.insert .port ⟨{ name := some "y" }, ⟨none, "d"⟩, none⟩ noon),
    .pass noon .port ⟨none, "x"⟩, .pass noon .port ⟨none, "y"⟩,
    .act (.insert .pod
      ⟨{ name := some "a", namespace_ := some "t",
         annotations := some (.ofList [("claims/http", "web")]) }, none, none⟩ noon),
    .act (.delete .portClaim ⟨some "t", "web"⟩ noon), .pass noon .portClaim ⟨some "t", "web"⟩]

theorem fixpoint_is_goal_crowded :
    let s := crowded.foldl (SerialMove.play "claims") {}
    s.failNextStatusWrite = false ∧
      (∀ k ∈ Kind.all, ∀ e ∈ (s.table k).entries,
        s.SameObjects (s.run noon (Reconcile.pass noon "claims" k e.2.ref)).2) ∧
      ∃ (p q : Port) (key : String), s.find .port "x" = some p ∧ p.phase = some .pending ∧
        key ≠ "x" ∧ s.find .port key = some q ∧ q.number = 5000 := by
  intro s
  have reachable : SeriallyReachable (UserStep UserAct.CreatesPlain) "claims" s :=
    SerialMove.reachable crowded .refl (fun _ a ok => .user a ok) (by decide +kernel)
  have unarmed : s.failNextStatusWrite = false := by decide +kernel
  have rests : ∀ k ∈ Kind.all, ∀ e ∈ (s.table k).entries,
      s.SameObjects (s.run noon (Reconcile.pass noon "claims" k e.2.ref)).2 := by decide +kernel
  have waits : (s.find .port "x").any (fun p => decide (p.isBeingDeleted = false ∧
      p.phase = some .pending ∧ p.spec.classRef = "c")) = true := by decide +kernel
  have served : s.find .portClass "c" ≠ none := by decide +kernel
  have eligible : (s.find .portPool "m").any
      (fun pool => decide (Allocation.isEligible "c" pool = true ∧ 1 ≤ pool.spec.first ∧
        pool.range.Contains 5000)) = true := by decide +kernel
  -- from here on the run that led to the store does not matter
  clear_value s
  obtain ⟨p, found, is⟩ := (Option.any_eq_true ..).mp waits
  obtain ⟨live, waiting, ofClass⟩ := of_decide_eq_true is
  obtain ⟨pool, foundPool, is⟩ := (Option.any_eq_true ..).mp eligible
  obtain ⟨fit, positive, within⟩ := of_decide_eq_true is
  refine ⟨unarmed, rests, p, ?_⟩
  have goal := (fixpoint_is_goal reachable unarmed
    (fun k key o found =>
      rests k (by cases k <;> decide) (key, o) (SortedMap.find_eq_some_iff.mp found))
    .port "x" p nofun found).achieves live
  rcases goal with ⟨settled, _⟩ | ⟨_, absent | taken⟩
  · rw [waiting] at settled
    contradiction
  · rw [ofClass] at absent
    exact absurd absent served
  · obtain ⟨key, q, other, foundQ, holds⟩ :=
      taken "m" pool foundPool (by rwa [ofClass]) positive 5000 within
    exact ⟨q, key, found, waiting, other, foundQ, holds⟩

end HostPorts
