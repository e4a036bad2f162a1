import HostPorts.Proofs.Pass.Undisturbed
import HostPorts.Proofs.Port.Provenance

/-!
When a port can come to name a pool that has gone. The finalizer of a pool looks for numbers in use
and releases the pool later, without the lock on allocation. That is safe as long as no user asks
for the deletion of a pool that a pass inside may draw from; and where a pass is about to write a
number of a pool, such a request can always be followed up to a dangling port.
-/
namespace HostPorts

namespace Pass

variable {α : Type}

def Unlocked : Pass α → Prop
  | .done _ => True
  | .call _ next => ∀ reply, (next reply).Unlocked
  | .alone _ => False

end Pass

namespace Cluster

variable {allowed : Cluster → UserAct → Prop} {claimPrefix : String}

/-- A pass that never waits may run as a whole before the others go on. -/
theorem steps_run {s : Store} {p : Pass Outcome} {sec : Section} {others : List Running}
    (now : Timestamp) (unlocked : p.Unlocked) :
    Relation.ReflTransGen (Step allowed claimPrefix) ⟨s, ⟨p, sec⟩ :: others⟩
      ⟨(s.run now p).2, others⟩ := by
  induction p generalizing s sec with
  | done a =>
    have step : Step allowed claimPrefix ⟨s, [] ++ ⟨.done a, sec⟩ :: others⟩ _ := .leave
    exact .single step
  | call r next ih =>
    have step : Step allowed claimPrefix ⟨s, [] ++ ⟨.call r next, sec⟩ :: others⟩ _ := .call now
    exact .head step (ih _ (unlocked _))
  | alone rest => contradiction

theorem steps_pass {s : Store} {others : List Running} (now : Timestamp) (k : Kind)
    (ref : ObjectRef) (unlocked : (Reconcile.pass now claimPrefix k ref).Unlocked) :
    Relation.ReflTransGen (Step allowed claimPrefix) ⟨s, others⟩
      ⟨(s.run now (Reconcile.pass now claimPrefix k ref)).2, others⟩ :=
  .head (.start now k ref) (steps_run now unlocked)

end Cluster

namespace Reconcile

theorem portPool_unlocked (now : Timestamp) (name : String) : (portPool now name).Unlocked := by
  have write : ∀ p : PortPool, (writeStatus p).Unlocked := by
    intro p reply
    cases reply <;> trivial
  intro reply
  cases reply with
  | error e =>
    simp only
    split <;> trivial
  | ok p =>
    simp only
    split
    · unfold finalizePool
      split
      · exact write _
      · trivial
      · intro reply
        cases reply with
        | error e => trivial
        | ok ports =>
          simp only
          split
          · intro reply
            cases reply <;> trivial
          · trivial
    · split
      · exact write _
      · unfold checkOverlap
        split
        · exact write _
        · trivial
        · intro reply
          cases reply with
          | error e => trivial
          | ok pools => exact write _
        · exact write _
      · trivial

variable {s : Store} {name : String} {p : PortPool} {now : Timestamp}

theorem run_portPool_marks (found : s.find .portPool name = some p)
    (deleted : p.isBeingDeleted = true) (first : p.phase ≠ some .deleting) :
    (s.run now (portPool now name)).2 = (s.updateStatus (p.withPhase .deleting)).2 := by
  rw [portPool, run_find found]
  simp only [deleted, if_true, finalizePool, DeletionStep.plan, first, decide_false, Bool.not_false]
  exact run_commit _

theorem run_portPool_releases (found : s.find .portPool name = some p)
    (deleted : p.isBeingDeleted = true) (marked : p.phase = some .deleting)
    (held : p.isProtected = true)
    (unused : Selection.portsOfPool p.displayName s.ports.values = []) :
    (s.run now (portPool now name)).2 = (s.updateFinalizers p.released).2 := by
  rw [portPool, run_find found]
  simp only [deleted, if_true, finalizePool, DeletionStep.plan, marked, held, decide_true,
    Bool.not_true, Bool.false_eq_true, if_false]
  have listed : ∀ next : List Port → Pass Outcome,
      s.run now (ask (.list .port) next) = s.run now (next s.ports.values) := fun _ => rfl
  rw [listed]
  simp only [unused, List.isEmpty_nil, if_true]
  exact run_commit _

end Reconcile

namespace Store

variable {s : Store} {name : String} {pool : PortPool}

structure Held (s : Store) (name : String) (pool : PortPool) : Prop where
  stored : s.find .portPool name = some pool
  key : pool.key = name
  displayed : pool.displayName = name
  token : pool.metadata.finalizers = some [ProtectionToken.ofPool.text]
  unarmed : s.failNextStatusWrite = false

theorem portsOfPool_of_unused (unused : s.Unused name) :
    Selection.portsOfPool name s.ports.values = [] := by
  rw [Selection.portsOfPool, List.filter_eq_nil_iff]
  intro p listed holds
  obtain ⟨key, found⟩ := mem_values.mp listed
  rw [Bool.and_eq_true, decide_eq_true_eq, decide_eq_true_eq] at holds
  exact unused key p found holds.2 holds.1

theorem Held.marked (h : s.Held name pool) (live : pool.isBeingDeleted = false)
    (now : Timestamp) :
    let s' := (UserAct.delete .portPool ⟨none, name⟩ now).perform s
    s'.Held name (pool.marked now s.nextVersion) ∧
      ∀ key, s'.find .port key = s.find .port key := by
  intro s'
  have held : pool.metadata.finalizerList ≠ [] := by simp [Metadata.finalizerList, h.token]
  obtain ⟨unarmed, puts⟩ : s'.failNextStatusWrite = s.failNextStatusWrite ∧
      s.Puts s' .portPool name (some (pool.marked now s.nextVersion)) :=
    delete_marks now h.stored held live
  exact ⟨⟨puts.here, h.key, h.displayed, h.token, unarmed.trans h.unarmed⟩,
    puts.find_other (by decide)⟩

theorem Held.deleting (h : s.Held name pool) (deleted : pool.isBeingDeleted = true)
    (first : pool.phase ≠ some .deleting) (now : Timestamp) :
    let s' := (s.run now (Reconcile.portPool now name)).2
    s'.Held name (Object.withVersion (pool.withPhase .deleting) s.nextVersion) ∧
      ∀ key, s'.find .port key = s.find .port key := by
  intro s'
  have held : pool.metadata.finalizerList ≠ [] := by simp [Metadata.finalizerList, h.token]
  have run : s' = (s.updateStatus (pool.withPhase .deleting)).2 :=
    Reconcile.run_portPool_marks h.stored deleted first
  have key : (pool.withPhase .deleting).key = name := h.key
  have stored : s.find .portPool (pool.withPhase .deleting).key = some pool := by
    rw [key, h.stored]
  obtain ⟨unarmed, puts⟩ := updateStatus_puts h.unarmed stored rfl
  rw [← run, key] at puts
  rw [← run] at unarmed
  have stays : (pool.withStatusOf (pool.withPhase .deleting) s.nextVersion).kept =
      some (Object.withVersion (pool.withPhase .deleting) s.nextVersion) :=
    Object.kept_of_held held
  exact ⟨⟨puts.here.trans stays, h.key, h.displayed, h.token, unarmed⟩,
    puts.find_other (by decide)⟩

theorem Held.released (h : s.Held name pool) (deleted : pool.isBeingDeleted = true)
    (marked : pool.phase = some .deleting) (unused : s.Unused name) (now : Timestamp) :
    let s' := (s.run now (Reconcile.portPool now name)).2
    s'.find .portPool name = none ∧ (∀ key, s'.find .port key = s.find .port key) ∧
      s'.failNextStatusWrite = false := by
  intro s'
  have protected_ : pool.isProtected = true := by
    simp [Object.isProtected, Kind.token?, ProtectionToken.isHeldBy, Metadata.finalizerList,
      h.token]
  have free : Selection.portsOfPool pool.displayName s.ports.values = [] := by
    rw [h.displayed]
    exact portsOfPool_of_unused unused
  have run : s' = (s.updateFinalizers pool.released).2 :=
    Reconcile.run_portPool_releases h.stored deleted marked protected_ free
  have key : pool.released.key = name := by
    rw [pool.released_only]
    exact h.key
  have version : pool.metadata.resourceVersion = pool.released.metadata.resourceVersion := by
    rw [pool.released_only]
  obtain ⟨unarmed, puts⟩ := updateFinalizers_puts (by rw [key, h.stored]) version
  rw [← run, key] at puts
  rw [← run] at unarmed
  refine ⟨?_, puts.find_other (by decide), unarmed.trans h.unarmed⟩
  have empty : pool.released.metadata.finalizers = some [] := by
    simp [Object.released, Kind.token?, ProtectionToken.release, h.token]
  have purged : (pool.withFinalizersOf pool.released s.nextVersion).isPurged = true := by
    unfold Object.isBeingDeleted Metadata.isBeingDeleted at deleted
    simp [Object.isPurged, Object.withFinalizersOf, Object.withVersion, Object.isBeingDeleted,
      Metadata.isBeingDeleted, Metadata.finalizerList, empty, deleted]
  rw [puts.here, Object.kept, if_pos purged]

theorem Held.goes (h : s.Held name pool) (live : pool.isBeingDeleted = false)
    (first : pool.phase ≠ some .deleting) (unused : s.Unused name) (now : Timestamp) :
    let s₁ := (UserAct.delete .portPool ⟨none, name⟩ now).perform s
    let s₂ := (s₁.run now (Reconcile.portPool now name)).2
    let s₃ := (s₂.run now (Reconcile.portPool now name)).2
    s₃.find .portPool name = none ∧ (∀ key, s₃.find .port key = s.find .port key) ∧
      s₃.failNextStatusWrite = false := by
  intro s₁ s₂ s₃
  obtain ⟨held₁, same₁⟩ := h.marked live now
  obtain ⟨held₂, same₂⟩ := held₁.deleting rfl first now
  have unused₂ : s₂.Unused name := by
    intro key p found
    rw [same₂, same₁] at found
    exact unused key p found
  obtain ⟨gone, same₃, unarmed⟩ := held₂.released rfl rfl unused₂ now
  refine ⟨gone, ?_, unarmed⟩
  intro key
  rw [same₃, same₂, same₁]

def PoolsStored (s : Store) : Prop :=
  ∀ key (p : Port), s.find .port key = some p → p.number ≠ 0 →
    ∃ name pool, p.poolName = some name ∧ s.find .portPool name = some pool

end Store

def Running.pendingPort (p : Running) : Option Port :=
  match p.rest with
  | .call (.updateStatus .port o) _ => some o
  | _ => none

namespace Cluster

/-- A pass is about to write a number of the pool into a port, the write will meet that port, and
so far the pool is not used. -/
structure Endangers (S : Cluster) (name : String) (o : Port) (pool : PortPool) : Prop where
  pending : ∃ p ∈ S.running, p.pendingPort = some o
  number : o.number ≠ 0
  source : o.poolName = some name
  current : ∃ old, S.store.find .port o.key = some old ∧ old.isBeingDeleted = false ∧
    old.metadata.resourceVersion = o.metadata.resourceVersion
  held : S.store.Held name pool
  live : pool.isBeingDeleted = false
  first : pool.phase ≠ some .deleting
  unused : S.store.Unused name

theorem Endangers.dangles {S : Cluster} {name : String} {o : Port} {pool : PortPool}
    (h : S.Endangers name o pool) (claimPrefix : String) (now : Timestamp) :
    ∃ T, Relation.ReflTransGen
        (Step (fun _ a => a = .delete .portPool ⟨none, name⟩ now) claimPrefix) S T ∧
      ¬ T.store.PoolsStored := by
  obtain ⟨s, running⟩ := S
  let s₁ := (UserAct.delete .portPool ⟨none, name⟩ now).perform s
  let s₂ := (s₁.run now (Reconcile.portPool now name)).2
  let s₃ := (s₂.run now (Reconcile.portPool now name)).2
  obtain ⟨gone, same, unarmed⟩ : s₃.find .portPool name = none ∧
      (∀ key, s₃.find .port key = s.find .port key) ∧ s₃.failNextStatusWrite = false :=
    h.held.goes h.live h.first h.unused now
  have unlocked := Reconcile.portPool_unlocked now name
  have toThird : Relation.ReflTransGen
      (Step (fun _ a => a = .delete .portPool ⟨none, name⟩ now) claimPrefix) ⟨s, running⟩
      ⟨s₃, running⟩ :=
    .head (.act _ rfl) <|
      (steps_pass now .portPool ⟨none, name⟩ unlocked).trans
        (steps_pass now .portPool ⟨none, name⟩ unlocked)
  obtain ⟨⟨rest, sec⟩, member, pending⟩ := h.pending
  obtain ⟨before, after, rfl⟩ := List.append_of_mem member
  unfold Running.pendingPort at pending
  split at pending
  next o' next is =>
    cases pending
    cases is
    refine ⟨_, toThird.tail (.call now), ?_⟩
    obtain ⟨old, found, live, version⟩ := h.current
    rw [← same] at found
    obtain ⟨_, puts⟩ := Store.updateStatus_puts unarmed found version
    have stays : (old.withStatusOf o s₃.nextVersion).kept =
        some (old.withStatusOf o s₃.nextVersion) := Object.kept_of_not_deleted live
    intro (stored : (s₃.updateStatus o).2.PoolsStored)
    obtain ⟨name', pool', named, found'⟩ :=
      stored o.key (old.withStatusOf o s₃.nextVersion) (puts.here.trans stays) h.number
    have sameName : some name' = some name := named.symm.trans h.source
    cases sameName
    rw [puts.find_other (by decide), gone] at found'
    contradiction
  · contradiction

end Cluster

/-- Ports in use name stored pools as long as no user asks for the deletion of a pool that a pass
inside may draw from. Where a number of a pool is about to be written, that request alone can lead
to a port that names a pool that is gone. -/
theorem pools_outlive_ports (claimPrefix : String) :
    (∀ S : Cluster, S.Reachable (fun S a => a.CreatesFresh ∧ S.Spares a) claimPrefix →
      S.store.PoolsStored) ∧
    ∀ (S : Cluster) (name : String) (o : Port) (pool : PortPool) (now : Timestamp),
      S.Endangers name o pool →
        ∃ T, Relation.ReflTransGen
            (Cluster.Step (fun _ a => a = .delete .portPool ⟨none, name⟩ now) claimPrefix) S T ∧
          ¬ T.store.PoolsStored := by
  constructor
  · intro S reachable key p found held
    have holds := Discipline.holds_of_reachable (Discipline.provenance_upheld claimPrefix)
      Discipline.provenance_coordinated reachable
    obtain ⟨name, pool, named, stored, _⟩ := holds.inv.provided key p found held
    exact ⟨name, pool, named, stored⟩
  · intro S name o pool now endangers
    exact endangers.dangles claimPrefix now

open Cluster (noon)

def UserAct.isInsert : UserAct → Bool
  | .insert .. => true
  | _ => false

def pendingAllocation : List Cluster.Move :=
  [.act (.insert .portClass ⟨{ name := some "c" }, ⟨⟩, none⟩ noon),
    .act (.insert .portPool
      ⟨{ name := some "n", finalizers := some [ProtectionToken.ofPool.text] },
        ⟨"c", 5000, 5009, true⟩, none⟩ noon),
    .act (.insert .port ⟨{ name := some "a" }, ⟨none, "c"⟩, none⟩ noon)] ++
  Cluster.Move.whole .portPool ⟨none, "n"⟩ 2 ++
  Cluster.Move.whole .portPool ⟨none, "n"⟩ 2 ++
  Cluster.Move.whole .portPool ⟨none, "n"⟩ 3 ++
  Cluster.Move.whole .port ⟨none, "a"⟩ 2 ++
  [.start noon .port ⟨none, "a"⟩, .call 0 noon, .call 0 noon, .enter 0, .call 0 noon,
    .call 0 noon]

def overtakenAllocation : List Cluster.Move :=
  pendingAllocation ++ [.act (.delete .portPool ⟨none, "n"⟩ noon)] ++
  Cluster.Move.whole .portPool ⟨none, "n"⟩ 2 ++
  Cluster.Move.whole .portPool ⟨none, "n"⟩ 3 ++ [.call 0 noon]

theorem pools_outlive_ports_pending :
    let S := Cluster.after "claims" (pendingAllocation ++ [.call 0 noon])
    let T := Cluster.after "claims" pendingAllocation
    (S.store.PoolsStored ∧ (S.store.find .port "a").map Port.number = some 5000) ∧
      ∃ T', Relation.ReflTransGen
          (Cluster.Step (fun _ a => a = .delete .portPool ⟨none, "n"⟩ noon) "claims") T T' ∧
        ¬ T'.store.PoolsStored := by
  intro S T
  have both := pools_outlive_ports "claims"
  refine ⟨⟨both.1 S ?_, by decide +kernel⟩, ?_⟩
  · refine Cluster.reachable_after (P := fun a => a.CreatesFresh ∧ a.isInsert = true) ?_
      (by decide +kernel) (by decide +kernel)
    rintro S a ⟨fresh, only⟩
    cases a with
    | insert k o now => exact ⟨fresh, trivial⟩
    | delete k ref now => contradiction
    | failNextStatusWrite => contradiction
  · have pending : ∃ o ∈ T.running.head?.bind Running.pendingPort, Port.number o ≠ 0 ∧
        Port.poolName o = some "n" ∧ ∃ old ∈ T.store.find .port o.key,
          old.isBeingDeleted = false ∧
            old.metadata.resourceVersion = o.metadata.resourceVersion := by
      decide +kernel
    have pool : ∃ pool ∈ T.store.find .portPool "n", pool.key = "n" ∧ pool.displayName = "n" ∧
        pool.metadata.finalizers = some [ProtectionToken.ofPool.text] ∧
        pool.isBeingDeleted = false ∧ pool.phase ≠ some .deleting := by
      decide +kernel
    have fresh : ∀ p ∈ T.store.ports.values, Port.number p = 0 := by decide +kernel
    obtain ⟨o, due, number, source, current⟩ := pending
    obtain ⟨p, first, due⟩ := Option.bind_eq_some_iff.mp due
    obtain ⟨pool, stored, key, displayed, token, live, notDeleting⟩ := pool
    refine both.2 T "n" o pool noon ⟨⟨p, List.mem_of_head? first, due⟩, number, source, current,
      ⟨stored, key, displayed, token, by decide +kernel⟩, live, notDeleting, ?_⟩
    intro key q found held
    exact absurd (fresh q (Store.mem_values.mpr ⟨key, found⟩)) held

/-- Without care for passes inside, a port can come to name a pool that is gone. -/
theorem port_names_lost_pool :
    ¬ ∀ S : Cluster, S.Reachable (fun _ a => a.CreatesFresh) "claims" → S.store.PoolsStored := by
  intro all
  have reachable : (Cluster.after "claims" overtakenAllocation).Reachable
      (fun _ a => a.CreatesFresh) "claims" :=
    Cluster.reachable_after (fun _ _ fresh => fresh) (by decide +kernel) (by decide +kernel)
  have written : ∃ p ∈ (Cluster.after "claims" overtakenAllocation).store.find .port "a",
      Port.number p ≠ 0 ∧ Port.poolName p = some "n" := by decide +kernel
  have gone : (Cluster.after "claims" overtakenAllocation).store.find .portPool "n" = none := by
    decide +kernel
  obtain ⟨p, stored, held, source⟩ := written
  obtain ⟨name, pool, named, found⟩ := all _ reachable "a" p stored held
  rw [source] at named
  cases named
  rw [gone] at found
  contradiction

end HostPorts
