import HostPorts.Proofs.Port.Numbers

/-!
Where port numbers come from: the range of a stored pool of the port's class. The pool of an
allocation is eligible when it is listed and stays so until the number is written, unless a user
asks for its deletion in between; a pool under deletion is never drawn from again, and its
finalizer goes only when no port holds a number of it.
-/
namespace HostPorts

/-- What users create is named and has no status; what is cluster-wide has no namespace, and pools
hold their token. -/
def UserAct.CreatesFresh : UserAct → Prop
  | .insert k o _ => o.metadata.name ≠ none ∧ o.status = none ∧
    (k.isNamespaced = false → o.metadata.namespace_ = none) ∧
    (k = .portPool → o.isProtected = true)
  | _ => True

instance : DecidablePred UserAct.CreatesFresh
  | .insert .. => inferInstanceAs (Decidable (_ ∧ _))
  | .delete .. => isTrue trivial
  | .failNextStatusWrite => isTrue trivial

def Section.offers : Section → List String
  | .offered pools =>
    (pools.filter fun pool => Allocation.isEligible pool.spec.classRef pool).map (·.key)
  | _ => []

/-- No user asks for the deletion of a pool that a pass inside may draw from. -/
def Cluster.Spares (S : Cluster) : UserAct → Prop
  | .delete .portPool ref _ => ∀ p ∈ S.running, ref.key ∉ p.stand.offers
  | _ => True

namespace Store

variable {s s' s'' : Store} {p q : Port}

def Provides (s : Store) (p : Port) : Prop :=
  ∃ name pool, p.poolName = some name ∧ s.find .portPool name = some pool ∧
    pool.spec.classRef = p.spec.classRef ∧ 1 ≤ pool.spec.first ∧
    PortRange.Contains (PortPool.range pool) p.number

def Unused (s : Store) (name : String) : Prop :=
  ∀ key (p : Port), s.find .port key = some p → p.number ≠ 0 → p.poolName ≠ some name

def Standing (s : Store) (name : String) (spec : PoolSpec) : Prop :=
  ∃ pool, s.find .portPool name = some pool ∧ pool.isBeingDeleted = false ∧ pool.spec = spec

structure Provided (s : Store) : Prop where
  orderly : s.Orderly
  ports : s.ClusterWide .port
  pools : s.ClusterWide .portPool
  held : ∀ name (pool : PortPool), s.find .portPool name = some pool →
    pool.metadata.finalizerList ≠ []
  provided : ∀ key (p : Port), s.find .port key = some p → p.number ≠ 0 → s.Provides p

/-- Once unused, a pool under deletion stays unused, and the pools of these names stand. -/
structure Respects (s s' : Store) (names : List String) : Prop where
  unused : ∀ name (pool : PortPool), s.find .portPool name = some pool →
    pool.isBeingDeleted = true → s'.find .portPool name = some pool → s.Unused name →
    s'.Unused name
  standing : ∀ name ∈ names, ∀ spec, s.Standing name spec → s'.Standing name spec

section

variable {names : List String}

theorem Respects.refl (s : Store) (names : List String) : s.Respects s names :=
  ⟨fun _ _ _ _ _ unused => unused, fun _ _ _ standing => standing⟩

theorem Respects.trans (orderly : s.Orderly) (evolves : s.Evolves s') (evolves' : s'.Evolves s'')
    (h : s.Respects s' names) (h' : s'.Respects s'' names) : s.Respects s'' names := by
  refine ⟨?_, fun name member spec standing => h'.standing name member spec
    (h.standing name member spec standing)⟩
  intro name pool found deleted found' unused
  -- the pool of the first and the last store is the one in the middle
  have known := (Known.of_find orderly found).mono evolves
  have between := known.still evolves' found'
  exact h'.unused name pool between deleted found' (h.unused name pool found deleted between unused)

theorem Respects.of_samePorts (same : ∀ key, s'.find .port key = s.find .port key)
    (standing : ∀ name ∈ names, ∀ spec, s.Standing name spec → s'.Standing name spec) :
    s.Respects s' names := by
  refine ⟨?_, standing⟩
  intro name pool _ _ _ unused key p found held
  exact unused key p ((same key).symm.trans found) held

theorem Respects.of_samePools (same : ∀ name, s'.find .portPool name = s.find .portPool name)
    {key : String} {new : Option Port} (puts : s.Puts s' .port key new)
    (source : ∀ p : Port, new = some p → p.number ≠ 0 →
      (∃ old : Port, s.find .port key = some old ∧ old.number ≠ 0 ∧ p.poolName = old.poolName) ∨
        ∃ name spec, p.poolName = some name ∧ s.Standing name spec) :
    s.Respects s' names := by
  constructor
  · intro name pool found deleted _ unused key' p found' held
    rcases puts.find_same found' with ⟨rfl, eq⟩ | ⟨_, old⟩
    · rcases source p eq held with ⟨old, foundOld, heldOld, sameName⟩ |
        ⟨name', _, named, pool', foundPool, live, _⟩
      · rw [sameName]
        exact unused key' old foundOld heldOld
      · intro is
        rw [named] at is
        cases is
        rw [found] at foundPool
        cases foundPool
        rw [deleted] at live
        contradiction
    · exact unused key' p old held
  · intro name _ spec standing
    obtain ⟨pool, found, live, is⟩ := standing
    exact ⟨pool, (same name).trans found, live, is⟩

end

namespace Provided

theorem of_samePorts (h : Provided s) (orderly : s'.Orderly) (ports : s'.ClusterWide .port)
    (pools : s'.ClusterWide .portPool)
    (same : ∀ key, s'.find .port key = s.find .port key)
    (held : ∀ name (pool : PortPool), s'.find .portPool name = some pool →
      pool.metadata.finalizerList ≠ [])
    (kept : ∀ name (pool : PortPool), s.find .portPool name = some pool →
      (∃ pool' : PortPool, s'.find .portPool name = some pool' ∧ pool'.spec = pool.spec) ∨
        s.Unused name) : Provided s' := by
  refine ⟨orderly, ports, pools, held, ?_⟩
  intro key p found numbered
  rw [same] at found
  obtain ⟨name, pool, named, stored, ofClass, positive, within⟩ := h.provided key p found numbered
  rcases kept name pool stored with ⟨pool', stored', spec⟩ | unused
  · refine ⟨name, pool', named, stored', ?_, ?_, ?_⟩
    · rw [spec, ofClass]
    · rw [spec]
      exact positive
    · unfold PortPool.range
      rw [spec]
      exact within
  · exact absurd named (unused key p found numbered)

theorem of_samePools (h : Provided s) (orderly : s'.Orderly) (ports : s'.ClusterWide .port)
    (pools : s'.ClusterWide .portPool)
    (same : ∀ name, s'.find .portPool name = s.find .portPool name) {key : String}
    {new : Option Port} (puts : s.Puts s' .port key new)
    (provides : ∀ p : Port, new = some p → p.number ≠ 0 → s.Provides p) : Provided s' := by
  refine ⟨orderly, ports, pools, ?_, ?_⟩
  · intro name pool found
    exact h.held name pool ((same name).symm.trans found)
  · intro key' p found numbered
    have before : s.Provides p := by
      rcases puts.find_same found with ⟨rfl, eq⟩ | ⟨_, old⟩
      · exact provides p eq numbered
      · exact h.provided key' p old numbered
    obtain ⟨name, pool, named, stored, rest⟩ := before
    exact ⟨name, pool, named, (same name).trans stored, rest⟩

end Provided
end Store

namespace Discipline

/-- Whatever passes do, offered pools stand and what is found unused stays so. -/
def provenance : Discipline where
  inv := Store.Provided
  rely sec s s' := s.Evolves s' ∧ s.Respects s' sec.offers
  promise _ s s' := ∀ names, s.Respects s' names
  rely_refl _ s := ⟨.refl s, .refl s _⟩
  rely_trans valid _ h h' := ⟨h.1.trans h'.1, h.2.trans valid.orderly h.1 h'.1 h'.2⟩
  rely_outside h := ⟨h.1, h.2.unused, by simp [Section.offers]⟩
  promise_refl _ s _ := .refl s _
  inv_orderly h := h.orderly
  rely_evolves h := h.1

variable {s s' : Store} {sec : Section}

theorem Chosen.standing {p : Port} {a : Allocation} (chosen : provenance.Chosen p a sec s) :
    ∃ spec : PoolSpec, s.Standing a.pool spec ∧ spec.classRef = p.spec.classRef ∧
      1 ≤ spec.first ∧ PortRange.Contains ⟨spec.first, spec.last⟩ a.port := by
  cases chosen with
  | @intro _ s₁ s₂ valid₁ _ drift₁ drift₂ choice =>
    obtain ⟨⟨pool, listed, eligible, named, positive, within⟩, _⟩ := Port.allocation_spec choice
    obtain ⟨key, stored⟩ := Store.mem_values.mp listed
    have name : a.pool = key := by
      rw [named, (valid₁.pools key pool stored).1, Option.getD_some]
    have fit : pool.spec.classRef = p.spec.classRef ∧
        Allocation.isEligible pool.spec.classRef pool = true ∧ pool.isBeingDeleted = false := by
      simp only [Allocation.isEligible, Bool.and_eq_true, decide_eq_true_eq,
        Bool.not_eq_true'] at eligible ⊢
      obtain ⟨⟨⟨⟨ofClass, enabled⟩, settled⟩, live⟩, nonempty⟩ := eligible
      exact ⟨ofClass, ⟨⟨⟨⟨trivial, enabled⟩, settled⟩, live⟩, nonempty⟩, live⟩
    have offered : a.pool ∈ (Section.offered s₁.pools.values).offers := by
      rw [name, ← valid₁.orderly.keyed _ key pool stored]
      exact List.mem_map.mpr ⟨pool, List.mem_filter.mpr ⟨listed, fit.2.1⟩, rfl⟩
    have standing₁ : s₁.Standing a.pool pool.spec := ⟨pool, by rwa [name], fit.2.2, rfl⟩
    have standing₂ := drift₁.2.standing _ offered _ standing₁
    exact ⟨pool.spec, drift₂.2.standing _ offered _ standing₂, fit.1, positive, within⟩

/-- A finalizer that has found its pool unused may still go by that when it releases it. -/
theorem unused_of_clear {claimPrefix : String} {pool : PortPool} (valid : provenance.inv s)
    (here : s.find .portPool pool.key = some pool) (deleted : pool.isBeingDeleted = true)
    (clear : provenance.Clear claimPrefix pool s) : s.Unused pool.key := by
  obtain ⟨s₁, valid₁, ⟨seen, empty⟩, drift⟩ := clear
  have here₁ := seen.known.still drift.1 here
  apply drift.2.unused _ pool here₁ deleted here
  intro key p found held named
  have display : pool.displayName = pool.key := by
    simp [Object.displayName, Metadata.displayName, (valid.pools _ pool here).1]
  have member : p ∈ Selection.portsOfPool pool.displayName s₁.ports.values := by
    refine List.mem_filter.mpr ⟨Store.mem_values.mpr ⟨key, found⟩, ?_⟩
    simp [display, named, held]
  rw [empty] at member
  contradiction

section

variable {claimPrefix key : String}

theorem provenance_port {new : Option Port} (valid : provenance.inv s) (orderly : s'.Orderly)
    (ports : s'.ClusterWide .port) (puts : s.Puts s' .port key new)
    (heir : ∀ p : Port, new = some p → p.number = 0 ∨
      (∃ old : Port, s.find .port key = some old ∧ p.spec = old.spec ∧ p.number = old.number ∧
        p.poolName = old.poolName) ∨
      ∃ name spec, p.poolName = some name ∧ s.Standing name spec ∧
        spec.classRef = p.spec.classRef ∧ 1 ≤ spec.first ∧
        PortRange.Contains ⟨spec.first, spec.last⟩ p.number) :
    provenance.Keeps sec s s' := by
  have same : ∀ key, s'.find .portPool key = s.find .portPool key := puts.find_other (by decide)
  have pools : s'.ClusterWide .portPool := valid.pools.of_same same
  constructor
  · apply valid.of_samePools orderly ports pools same puts
    intro p eq numbered
    rcases heir p eq with zero | ⟨old, found, spec, number, poolName⟩ |
      ⟨name, _, poolName, ⟨pool, stored, _, rfl⟩, fit⟩
    · exact absurd zero numbered
    · obtain ⟨name, pool, rest⟩ := valid.provided key old found (by rwa [← number])
      rw [← poolName, ← spec, ← number] at rest
      exact ⟨name, pool, rest⟩
    · exact ⟨name, pool, poolName, stored, fit⟩
  · intro names
    refine .of_samePools same puts ?_
    intro p eq numbered
    rcases heir p eq with zero | ⟨old, found, _, number, poolName⟩ |
      ⟨name, spec, poolName, standing, _⟩
    · exact absurd zero numbered
    · exact Or.inl ⟨old, found, by rwa [← number], poolName⟩
    · exact Or.inr ⟨name, spec, poolName, standing⟩

theorem provenance_pool {new : Option PortPool} {names : List String} (valid : s.Provided)
    (orderly : s'.Orderly) (pools : s'.ClusterWide .portPool)
    (puts : s.Puts s' .portPool key new)
    (held : ∀ p : PortPool, new = some p → p.metadata.finalizerList ≠ [])
    (kept : ∀ old : PortPool, s.find .portPool key = some old →
      (∃ p : PortPool, new = some p ∧ p.spec = old.spec) ∨ s.Unused key)
    (stands : ∀ old : PortPool, s.find .portPool key = some old → old.isBeingDeleted = false →
      key ∈ names → ∃ p : PortPool, new = some p ∧ p.isBeingDeleted = false ∧ p.spec = old.spec) :
    s'.Provided ∧ s.Respects s' names := by
  have same : ∀ key, s'.find .port key = s.find .port key := puts.find_other (by decide)
  have ports : s'.ClusterWide .port := valid.ports.of_same same
  constructor
  · apply valid.of_samePorts orderly ports pools same
    · intro name p stored
      rcases puts.find_same stored with ⟨rfl, eq⟩ | ⟨_, before⟩
      · exact held p eq
      · exact valid.held name p before
    · intro name old stored
      by_cases here : name = key
      · subst here
        rcases kept old stored with ⟨p, is, spec⟩ | unused
        · exact Or.inl ⟨p, puts.here.trans is, spec⟩
        · exact Or.inr unused
      · exact Or.inl ⟨old, (puts.beside name here).trans stored, rfl⟩
  · refine .of_samePorts same ?_
    intro name member _ standing
    obtain ⟨old, stored, live, rfl⟩ := standing
    by_cases here : name = key
    · subst here
      obtain ⟨p, is, liveP, spec⟩ := stands old stored live member
      exact ⟨p, puts.here.trans is, liveP, spec⟩
    · exact ⟨old, (puts.beside name here).trans stored, live, rfl⟩

theorem provenance_poolDeed {new : Option PortPool} (valid : provenance.inv s)
    (orderly : s'.Orderly) (puts : s.Puts s' .portPool key new)
    (deed : provenance.Deed claimPrefix s sec .portPool key new) :
    provenance.Keeps sec s s' := by
  have pools := deed.clusterWide puts valid.pools
  obtain ⟨old, found, change⟩ := deed.pool
  have keeps : ∀ names, s'.Provided ∧ s.Respects s' names := by
    intro names
    apply provenance_pool valid orderly pools puts
    · intro p eq
      rcases change with ⟨_, p', is, _, _, finalizers⟩ | ⟨_, p', is, deleted, _, _⟩
      · rw [is] at eq
        cases eq
        rw [finalizers]
        exact valid.held key old found
      · rw [eq] at is
        rcases Object.kept_cases deleted with ⟨stays, held⟩ | gone
        · rw [stays] at is
          cases is
          exact held
        · rw [gone] at is
          contradiction
    · intro old' found'
      rw [found] at found'
      cases found'
      rcases change with ⟨_, p, is, _, spec, _⟩ | ⟨deleted, p, is, _, spec, reason⟩
      · exact Or.inl ⟨p, is, spec⟩
      · rcases reason with finalizers | ⟨rfl, clear⟩
        · have held := valid.held key old found
          rw [← finalizers] at held
          exact Or.inl ⟨p, is.trans (Object.kept_of_held held), spec⟩
        · exact Or.inr (unused_of_clear valid found deleted clear)
    · intro old' found' live _
      rw [found] at found'
      cases found'
      rcases change with ⟨_, p, is, liveP, spec, _⟩ | ⟨deleted, _⟩
      · exact ⟨p, is, liveP, spec⟩
      · rw [deleted] at live
        contradiction
  exact ⟨(keeps []).1, fun names => (keeps names).2⟩

theorem provenance_newPool {new : PortPool} (valid : s.Provided) (orderly : s'.Orderly)
    (pools : s'.ClusterWide .portPool) (puts : s.Puts s' .portPool key (some new))
    (free : s.find .portPool key = none) (held : new.metadata.finalizerList ≠ []) :
    provenance.Keeps sec s s' := by
  have keeps : ∀ names, s'.Provided ∧ s.Respects s' names := by
    intro names
    apply provenance_pool valid orderly pools puts
    · intro p eq
      cases eq
      exact held
    · intro old found
      rw [free] at found
      contradiction
    · intro old found
      rw [free] at found
      contradiction
  exact ⟨(keeps []).1, fun names => (keeps names).2⟩

theorem provenance_markedPool {old : PortPool} {now : Timestamp} {version : String}
    (valid : s.Provided) (orderly : s'.Orderly) (pools : s'.ClusterWide .portPool)
    (puts : s.Puts s' .portPool key (some (old.marked now version)))
    (found : s.find .portPool key = some old) (held : old.metadata.finalizerList ≠ []) :
    s'.Provided ∧ ∀ names, key ∉ names → s.Respects s' names := by
  have keeps : ∀ names, key ∉ names → s'.Provided ∧ s.Respects s' names := by
    intro names spared
    apply provenance_pool valid orderly pools puts
    · intro p eq
      cases eq
      exact held
    · intro old' found'
      rw [found] at found'
      cases found'
      exact Or.inl ⟨_, rfl, rfl⟩
    · intro _ _ _ member
      exact absurd member spared
  exact ⟨(keeps [] List.not_mem_nil).1, fun names spared => (keeps names spared).2⟩

theorem provenance_other (valid : provenance.inv s) (orderly : s'.Orderly)
    (samePorts : ∀ key, s'.find .port key = s.find .port key)
    (samePools : ∀ key, s'.find .portPool key = s.find .portPool key) :
    provenance.Keeps sec s s' := by
  constructor
  · apply valid.of_samePorts orderly (valid.ports.of_same samePorts)
      (valid.pools.of_same samePools) samePorts
    · intro name pool stored
      exact valid.held name pool ((samePools name).symm.trans stored)
    · intro name pool stored
      exact Or.inl ⟨pool, (samePools name).trans stored, rfl⟩
  · intro names
    refine .of_samePorts samePorts ?_
    intro name _ spec standing
    obtain ⟨pool, stored, rest⟩ := standing
    exact ⟨pool, (samePools name).trans stored, rest⟩

theorem provenance_upheld (claimPrefix : String) : provenance.Upholds claimPrefix where
  idle valid same :=
    provenance_other valid (valid.orderly.of_unchanged same) (same.find .port)
      (same.find .portPool)
  deed {sec s s' k key new} valid orderly puts deed := by
    by_cases port : k = .port
    · subst port
      apply provenance_port valid orderly (deed.clusterWide puts valid.ports) puts
      intro p eq
      rw [eq] at deed
      rcases deed.number with zero | kept | ⟨old, a, _, spec, number, poolName, chosen⟩
      · exact Or.inl zero
      · exact Or.inr (Or.inl kept)
      · obtain ⟨pool, standing, ofClass, positive, within⟩ := chosen.standing
        rw [← spec] at ofClass
        rw [← number] at within
        exact Or.inr (Or.inr ⟨a.pool, pool, poolName, standing, ofClass, positive, within⟩)
    · by_cases pool : k = .portPool
      · subst pool
        exact provenance_poolDeed valid orderly puts deed
      · exact provenance_other valid orderly (puts.find_other (Ne.symm port))
          (puts.find_other (Ne.symm pool))

theorem provenance_perform {a : UserAct} (valid : s.Provided) (fresh : a.CreatesFresh) :
    (a.perform s).Provided ∧ ∀ names,
      (∀ ref now, a = .delete .portPool ref now → ref.key ∉ names) →
        s.Respects (a.perform s) names := by
  have orderly := valid.orderly.perform a
  have named : ∀ k : Kind, k.isNamespaced = false → s.ClusterWide k →
      (a.perform s).ClusterWide k := by
    intro k clusterWide before
    apply before.perform
    intro o now is
    subst is
    exact ⟨fresh.1, fresh.2.2.1 clusterWide⟩
  have ports := named .port rfl valid.ports
  have pools := named .portPool rfl valid.pools
  have easy : provenance.Keeps .outside s (a.perform s) → (a.perform s).Provided ∧ ∀ names,
      (∀ ref now, a = .delete .portPool ref now → ref.key ∉ names) →
        s.Respects (a.perform s) names := fun keeps => ⟨keeps.1, fun names _ => keeps.2 names⟩
  rcases a.perform_cases s with same | ⟨k, o, now, is, free, _, puts⟩ |
    ⟨k, ref, now, old, is, found, change⟩
  · exact easy (provenance_other valid orderly (same.find .port) (same.find .portPool))
  · by_cases port : k = .port
    · subst port is
      refine easy (provenance_port valid orderly ports puts ?_)
      intro p eq
      cases eq
      have new : (o.identified (s.nextIdentity now)).status = none := fresh.2.1
      exact Or.inl (by rw [Port.number, new]; rfl)
    · by_cases pool : k = .portPool
      · subst pool is
        refine easy (provenance_newPool valid orderly pools puts free ?_)
        exact Object.held_of_isProtected (fresh.2.2.2 rfl)
      · exact easy (provenance_other valid orderly (puts.find_other (Ne.symm port))
          (puts.find_other (Ne.symm pool)))
  · by_cases port : k = .port
    · subst port
      rcases change with ⟨_, puts⟩ | ⟨_, _, puts⟩
      · refine easy (provenance_port valid orderly ports puts ?_)
        intro p eq
        contradiction
      · refine easy (provenance_port valid orderly ports puts ?_)
        intro p eq
        cases eq
        exact Or.inr (Or.inl ⟨old, found, rfl, rfl, rfl⟩)
    · by_cases pool : k = .portPool
      · subst pool is
        rcases change with ⟨empty, _⟩ | ⟨held, _, puts⟩
        · exact absurd empty (valid.held ref.key old found)
        obtain ⟨provided, respects⟩ := provenance_markedPool valid orderly pools puts found held
        exact ⟨provided, fun names spared => respects names (spared ref now rfl)⟩
      · rcases change with ⟨_, puts⟩ | ⟨_, _, puts⟩
        · exact easy (provenance_other valid orderly (puts.find_other (Ne.symm port))
            (puts.find_other (Ne.symm pool)))
        · exact easy (provenance_other valid orderly (puts.find_other (Ne.symm port))
            (puts.find_other (Ne.symm pool)))

theorem provenance_empty : provenance.inv {} := by
  refine ⟨.empty, .empty, .empty, ?_, ?_⟩
  · intro key p found
    exact absurd found Store.not_find_empty
  · intro key p found
    exact absurd found Store.not_find_empty

theorem provenance_coordinated :
    provenance.Coordinates fun S a => a.CreatesFresh ∧ S.Spares a where
  start := provenance_empty
  among _ evolves keeps _ := ⟨evolves, keeps.2 _⟩
  act {S a} valid ok := by
    obtain ⟨provided, respects⟩ := provenance_perform valid ok.1
    refine ⟨provided, ?_⟩
    intro p member
    refine ⟨S.store.evolves_perform a, respects _ ?_⟩
    intro ref now is
    have spared := ok.2
    subst is
    exact spared p member

end

end Discipline

def FreshActs (s s' : Store) : Prop := ∃ a : UserAct, a.CreatesFresh ∧ s' = a.perform s

/-- Every number in use is from the range of a stored pool of the port's class. -/
theorem number_from_pool {claimPrefix : String} {s : Store}
    (reachable : SeriallyReachable FreshActs claimPrefix s) {key : String} {p : Port}
    (stored : s.find .port key = some p) (held : p.number ≠ 0) :
    ∃ name pool, p.poolName = some name ∧ s.find .portPool name = some pool ∧
      pool.spec.classRef = p.spec.classRef ∧ 1 ≤ pool.spec.first ∧
      pool.spec.first ≤ p.number ∧ p.number ≤ pool.spec.last := by
  have provided : s.Provided := by
    refine Discipline.inv_of_seriallyReachable (Discipline.provenance_upheld claimPrefix)
      Discipline.provenance_empty ?_ reachable
    rintro s _ valid ⟨a, fresh, rfl⟩
    exact (Discipline.provenance_perform valid fresh).1
  obtain ⟨name, pool, named, found, ofClass, positive, first, last⟩ :=
    provided.provided key p stored held
  exact ⟨name, pool, named, found, ofClass, positive, first, last⟩

open Cluster (noon)

def drainedPool : List SerialMove :=
  [.act (.insert .portClass ⟨{ name := some "c" }, ⟨⟩, none⟩ noon),
    .act (.insert .portPool
      ⟨{ name := some "n", finalizers := some [ProtectionToken.ofPool.text] },
        ⟨"c", 5000, 5009, true⟩, none⟩ noon),
    .act (.insert .port ⟨{ name := some "a" }, ⟨none, "c"⟩, none⟩ noon),
    .pass noon .portPool ⟨none, "n"⟩, .pass noon .portPool ⟨none, "n"⟩,
    .pass noon .portPool ⟨none, "n"⟩, .pass noon .port ⟨none, "a"⟩, .pass noon .port ⟨none, "a"⟩,
    .act (.delete .portPool ⟨none, "n"⟩ noon), .pass noon .portPool ⟨none, "n"⟩,
    .pass noon .portPool ⟨none, "n"⟩]

theorem number_from_pool_drained :
    let s := drainedPool.foldl (SerialMove.play "claims") {}
    ∃ (p : Port) (name : String) (pool : PortPool), s.find .port "a" = some p ∧ p.number = 5000 ∧
      p.poolName = some name ∧ s.find .portPool name = some pool ∧
      pool.spec.first ≤ p.number ∧ p.number ≤ pool.spec.last := by
  intro s
  have reachable : SeriallyReachable FreshActs "claims" s :=
    SerialMove.reachable drainedPool .refl (fun _ a fresh => ⟨a, fresh, rfl⟩) (by decide +kernel)
  have numbered : (s.find .port "a").map Port.number = some 5000 := by decide +kernel
  obtain ⟨p, stored, number⟩ := Option.map_eq_some_iff.mp numbered
  have held : p.number ≠ 0 := by rw [number]; decide
  obtain ⟨name, pool, named, found, _, _, first, last⟩ := number_from_pool reachable stored held
  exact ⟨p, name, pool, stored, number, named, found, first, last⟩

end HostPorts
