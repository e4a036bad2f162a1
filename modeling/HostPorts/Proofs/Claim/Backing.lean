import HostPorts.Proofs.Claim.Clash
import HostPorts.Proofs.Object.Lifecycle
import HostPorts.Proofs.Pass.Undisturbed

/-!
One port for each claim, whatever fails. The port behind a claim is named after the claim's uid, so
a pass that is repeated after a crash meets the port of the earlier one and takes it for its own.
It is: nobody else creates ports under such names, and a uid stands for one claim for ever.
-/
namespace HostPorts

/-- Claims come with a name and a namespace and without a status, ports without a claim and not
under the names of backing ports. -/
def UserAct.CreatesUnbacked : UserAct → Prop
  | .insert .portClaim c _ =>
    c.metadata.name ≠ none ∧ c.metadata.namespace_ ≠ none ∧ c.status = none
  | .insert .port p _ =>
    p.spec.claimRef = none ∧ ¬ "claim-".toList <+: (p.metadata.name.getD "").toList
  | _ => True

instance : DecidablePred UserAct.CreatesUnbacked
  | .insert k _ _ =>
    match k with
    | .portClaim | .port => inferInstanceAs (Decidable (_ ∧ _))
    | .portClass | .portPool | .pod => isTrue trivial
  | .delete .. => isTrue trivial
  | .failNextStatusWrite => isTrue trivial

theorem Store.noSlash_uidOf (n : Nat) : '/' ∉ (uidOf n).toList := by
  have front : '/' ∉ "00000000-0000-4000-8000-".toList := by decide
  unfold uidOf
  generalize "00000000-0000-4000-8000-" = frame at front ⊢
  simp only [String.toList_append, String.toList_ofList, List.mem_append]
  rintro (slash | zero | digit)
  · exact front slash
  · exact absurd (List.eq_of_mem_replicate zero) (by decide)
  · exact absurd (Nat.isDigit_of_mem_toDigits (by decide) (by decide) digit) (by decide)

theorem Port.key_ne_of_unprefixed {p : Port} {n : Nat}
    (apart : ¬ "claim-".toList <+: (p.metadata.name.getD "").toList) :
    Object.key p ≠ portNameForClaim (Store.uidOf n) := by
  intro same
  unfold Object.key Object.ref ObjectRef.key at same
  cases within : p.metadata.namespace_ with
  | none =>
    simp only [within] at same
    apply apart
    rw [same, portNameForClaim, String.toList_append]
    exact List.prefix_append _ _
  | some ns =>
    simp only [within] at same
    have slash : '/' ∈ (portNameForClaim (Store.uidOf n)).toList := by
      rw [← same]
      simp [String.toList_append]
    rw [portNameForClaim, String.toList_append, List.mem_append] at slash
    rcases slash with front | back
    · exact absurd front (by decide)
    · exact Store.noSlash_uidOf n back

/-- Settled on a port that is stored and refers back to the claim. -/
def PortClaim.BackedIn (c : PortClaim) (s : Store) : Prop :=
  ∃ (p : Port) (r : ClaimReference), c.metadata.uid = some r.uid ∧
    c.metadata.namespace_ = some r.namespace_ ∧ c.metadata.name = some r.name ∧
    boundPortName c = some (portNameForClaim r.uid) ∧
    s.find .port (portNameForClaim r.uid) = some p ∧ p.spec.claimRef = some r ∧
    p.spec.classRef = c.spec.classRef

namespace Store

/-- The port stands under the name for the uid that it refers to, and it is like the claim of that
uid, if there still is one. -/
structure Owned (s : Store) (key : String) (p : Port) (r : ClaimReference) : Prop where
  named : p.metadata.name = some key
  under : key = portNameForClaim r.uid
  given : ∃ n ≤ s.created, r.uid = uidOf n
  claim : ∀ key' (c : PortClaim), s.find .portClaim key' = some c → c.metadata.uid = some r.uid →
    c.metadata.namespace_ = some r.namespace_ ∧ c.metadata.name = some r.name ∧
      p.spec.classRef = c.spec.classRef

/-- The object may stand under the key: a proper claim, or a port that refers to a claim of its own
if it refers to any, or stands under the name of a backing port. -/
def Fits (s : Store) (key : String) : {k : Kind} → Object k → Prop
  | .portClaim, c => c.Proper ∧ c.metadata.namespace_ ≠ none ∧ c.metadata.name ≠ none
  | .port, p => (∀ r, p.spec.claimRef = some r → s.Owned key p r) ∧
    ∀ n, key = portNameForClaim (uidOf n) → p.spec.claimRef ≠ none
  | _, _ => True

structure Backed (s : Store) : Prop where
  orderly : s.Orderly
  fits : ∀ k key (o : Object k), s.find k key = some o → s.Fits key o

variable {s s' : Store} {k : Kind} {key : String}

theorem Owned.keep {p : Port} {r : ClaimReference} (h : s.Owned key p r)
    (lineage : Lineage .renewal s s') : s'.Owned key p r := by
  obtain ⟨m, le, given⟩ := h.given
  have created := lineage.created_le
  refine ⟨h.named, h.under, ⟨m, by omega, given⟩, ?_⟩
  intro key' c found uid
  rcases lineage.entry .portClaim key' c found with ⟨old, foundOld, same, succeeds⟩ |
    ⟨n, above, _, fresh⟩
  · rw [succeeds.namespace_, succeeds.name, succeeds.spec]
    exact h.claim key' old foundOld (same.symm.trans uid)
  · rw [uid, given] at fresh
    have := uidOf_injective (Option.some.inj fresh)
    omega

theorem Fits.keep {o : Object k} (h : s.Fits key o)
    (lineage : Lineage .renewal s s') : s'.Fits key o := by
  cases k with
  | portClaim => exact h
  | port => exact ⟨fun r refers => (h.1 r refers).keep lineage, h.2⟩
  | _ => trivial

theorem Fits.next {old o : Object k} (h : s.Fits key old) (succeeds : o.Succeeds old)
    (proper : k = .portClaim → o.Proper) : s.Fits key o := by
  cases k with
  | portClaim =>
    refine ⟨proper rfl, ?_, ?_⟩
    · rw [succeeds.namespace_]
      exact h.2.1
    · rw [succeeds.name]
      exact h.2.2
  | port =>
    obtain ⟨owned, backing⟩ := h
    refine ⟨?_, ?_⟩
    · intro r refers
      rw [succeeds.spec] at refers
      obtain ⟨named, under, given, claim⟩ := owned r refers
      refine ⟨succeeds.name.trans named, under, given, ?_⟩
      rw [succeeds.spec]
      exact claim
    · rw [succeeds.spec]
      exact backing
  | _ => trivial

namespace Backed

theorem empty : Backed {} := by
  refine ⟨.empty, ?_⟩
  intro k key o found
  exact absurd found not_find_empty

theorem of_unchanged (h : s.Backed) (same : s.Unchanged s') : s'.Backed := by
  refine ⟨h.orderly.of_unchanged same, ?_⟩
  intro k key o found
  apply (h.fits k key o ((same.find k key).symm.trans found)).keep
  exact .of_unchanged (fun _ => .refl) same

theorem of_puts (h : s.Backed) (orderly : s'.Orderly)
    (lineage : Lineage .renewal s s') {new : Option (Object k)}
    (puts : s.Puts s' k key new) (heir : ∀ o, new = some o → s.Fits key o) : s'.Backed := by
  refine ⟨orderly, puts.entries ?_ ?_⟩
  · exact fun o eq => (heir o eq).keep lineage
  · exact fun k' key' o found => (h.fits k' key' o found).keep lineage

theorem perform (h : s.Backed) {a : UserAct} (ok : a.CreatesUnbacked) :
    (a.perform s).Backed ∧ Lineage .renewal s (a.perform s) := by
  have lineage : Lineage .renewal s (a.perform s) :=
    .perform (fun _ => .refl) (fun _ o => o.marked_succeeds) h.orderly a
  refine ⟨?_, lineage⟩
  have orderly := h.orderly.perform a
  rcases a.perform_cases s with same | ⟨k, o, now, is, _, _, puts⟩ |
    ⟨k, ref, now, old, _, found, ⟨_, puts⟩ | ⟨_, _, puts⟩⟩
  · exact h.of_unchanged same
  · apply h.of_puts orderly lineage puts
    intro o' eq
    cases eq
    subst is
    cases k with
    | portClaim => exact ⟨.of_blank ok.2.2, ok.2.1, ok.1⟩
    | port =>
      constructor
      · intro r refers
        cases ok.1.symm.trans refers
      · exact fun n under => absurd under (Port.key_ne_of_unprefixed ok.2)
    | _ => trivial
  · exact h.of_puts orderly lineage puts (by simp)
  · apply h.of_puts orderly lineage puts
    intro o' eq
    cases eq
    have fits := h.fits k _ old found
    apply fits.next (old.marked_succeeds ..)
    intro kinds
    subst kinds
    exact fits.1.marked now s.nextVersion

theorem backs (h : s.Backed) {c : PortClaim} {p : Port} {uid : String}
    (found : s.find .portClaim key = some c) (identity : c.metadata.uid = some uid)
    (settled : c.phase = some .settled) (stored : s.find .port (portNameForClaim uid) = some p) :
    c.BackedIn s := by
  obtain ⟨n, _, given⟩ := h.orderly.identified _ key c found
  rw [identity] at given
  obtain rfl := Option.some.inj given
  obtain ⟨owned, backing⟩ := h.fits _ _ p stored
  obtain ⟨r, refers⟩ := Option.ne_none_iff_exists'.mp (backing n rfl)
  have owns := owned r refers
  have same := portNameForClaim_injective owns.under
  rw [same] at identity stored
  obtain ⟨within, named, class_⟩ := owns.claim key c found identity
  have recorded := (h.fits _ key c found).1.recorded
  obtain ⟨name, bound⟩ := Option.ne_none_iff_exists'.mp (recorded.settled settled)
  obtain ⟨uid', identity', is⟩ := recorded.own name bound
  cases identity.symm.trans identity'
  rw [is] at bound
  exact ⟨p, r, identity, within, named, bound, stored, refers, class_⟩

end Backed
end Store

namespace Discipline

variable {D : Discipline} {claimPrefix key : String} {sec : Section} {s : Store}

theorem Deed.port {p : Port} (deed : D.Deed claimPrefix s sec .port key (some p)) :
    (∃ old : Port, s.find .port key = some old ∧ p.Succeeds old) ∨
      ∃ (c : PortClaim) (ns uid : String) (i : Identity), D.Seen c s ∧
        c.metadata.namespace_ = some ns ∧ c.metadata.uid = some uid ∧
        key = portNameForClaim uid ∧ p = (c.backingPort ns uid).identified i := by
  rcases deed.succeeds with version | ⟨_, free, _⟩
  · exact Or.inl version
  · generalize is : some p = new at deed
    cases deed with
    | backing seen live within identity _ =>
      cases is
      exact Or.inr ⟨_, _, _, _, seen, within, identity, rfl, rfl⟩
    | portPending here | allocate here | mark _ here | release here =>
      rw [free] at here
      contradiction
    | reclaim _ _ _ _ found =>
      rw [free] at found
      contradiction

end Discipline

namespace Course

def backings : Course where
  step := .renewal
  inv := Store.Backed
  refl _ := .refl
  orderly h := h.orderly

variable {fault : Request → StoreError → Prop} {s : Store} {key : String}

theorem backings_allow : backings.Allows fun _ act => act.CreatesUnbacked where
  start := .empty
  act valid ok := valid.perform ok

/-- Whatever carries the uid of a claim that was read is a version of that claim, so the port that
is made for it is its own. -/
theorem fits_of_backing {c : PortClaim} {ns uid : String} {i : Identity}
    (seen : (backings.discipline fault).Seen c s) (within : c.metadata.namespace_ = some ns)
    (identity : c.metadata.uid = some uid) :
    s.Fits (portNameForClaim uid) ((c.backingPort ns uid).identified i) := by
  obtain ⟨s₀, valid₀, found₀, _, since⟩ := seen
  change s₀.Backed at valid₀
  obtain ⟨n, le, given⟩ := valid₀.orderly.identified _ _ c found₀
  rw [identity] at given
  have created := since.created_le
  have named := (valid₀.fits _ _ c found₀).2.2
  obtain ⟨name, named⟩ := Option.ne_none_iff_exists'.mp named
  have display : Object.displayName c = name := by
    simp [Object.displayName, Metadata.displayName, named]
  refine ⟨?_, fun _ _ => nofun⟩
  intro r refers
  cases refers
  refine ⟨rfl, rfl, ⟨n, by omega, Option.some.inj given⟩, ?_⟩
  intro key' c' found identity'
  obtain ⟨_, course⟩ := since.same valid₀.orderly found₀ found (identity'.trans identity.symm)
  have succeeds := Object.succeeds_all course
  refine ⟨succeeds.namespace_.trans within, ?_, ?_⟩
  · rw [display]
    exact succeeds.name.trans named
  · rw [succeeds.spec]
    rfl

theorem backings_upheld (fault : Request → StoreError → Prop) (claimPrefix : String) :
    (backings.discipline fault).Upholds claimPrefix where
  idle valid same := ⟨Store.Backed.of_unchanged valid same, .of_unchanged backings.refl same⟩
  deed {sec s s' k key new} valid orderly puts deed := by
    change s.Backed at valid
    have lineage : Store.Lineage backings.step s s' :=
      lineage_of_deed orderly puts deed fun _ _ _ _ succeeds => succeeds
    refine ⟨valid.of_puts orderly lineage puts ?_, lineage⟩
    intro o eq
    subst eq
    have next : ∀ old, s.find k key = some old → o.Succeeds old → s.Fits key o := by
      intro old found succeeds
      apply (valid.fits k key old found).next succeeds
      intro kinds
      subst kinds
      exact (deed.proceeds fun c here => (valid.fits _ key c here).1).1
    rcases deed.succeeds with ⟨old, found, succeeds⟩ | ⟨kinds, _⟩
    · exact next old found succeeds
    · subst kinds
      rcases deed.port with ⟨old, found, succeeds⟩ |
        ⟨c, ns, uid, i, seen, within, identity, rfl, rfl⟩
      · exact next old found succeeds
      · exact fits_of_backing seen within identity

end Course

namespace Reconcile

variable {s t : Store} {now : Timestamp} {claimPrefix ns name : String} {c : PortClaim}
  {o : Outcome}

theorem run_pendingClaim (backed : s.Backed) (unarmed : s.failNextStatusWrite = false)
    (found : s.find .portClaim (ObjectRef.key ⟨some ns, name⟩) = some c)
    (live : c.isBeingDeleted = false) (waiting : c.phase = some .pending)
    (ran : s.run now (portClaim claimPrefix ns name) = (o, t)) :
    o = .ok () ∧ ∃ (uid : String) (c' : PortClaim) (p : Port), c.metadata.uid = some uid ∧
      c'.metadata.uid = some uid ∧ c'.phase = some .settled ∧
      t.find .portClaim (ObjectRef.key ⟨some ns, name⟩) = some c' ∧
      t.find .port (portNameForClaim uid) = some p := by
  obtain ⟨n, _, identity⟩ := backed.orderly.identified _ _ c found
  obtain ⟨_, within⟩ := Option.ne_none_iff_exists'.mp (backed.fits _ _ c found).2.1
  have key := backed.orderly.keyed _ _ c found
  rw [portClaim, run_find found] at ran
  simp only [live, waiting, Bool.false_eq_true, if_false] at ran
  obtain ⟨mid, goes, ⟨p, stored⟩, sameClaims, armed⟩ := run_ensureBackingPort s now
    (fun portName => writeStatus (k := .portClaim)
      { c with status := some ⟨some .settled, some portName⟩ }) within identity
  rw [bindClaim, goes] at ran
  have here : mid.find .portClaim (Object.key (k := .portClaim)
      { c with status := some ⟨some .settled, some (portNameForClaim (Store.uidOf n))⟩ }) =
        some c := by
    rw [sameClaims]
    exact key ▸ found
  obtain ⟨ok, puts⟩ := run_writeStatus now (armed.trans unarmed) here rfl
  rw [ran] at ok puts
  rw [Object.kept_of_not_deleted (by exact live)] at puts
  have settles := puts.here
  change t.find .portClaim (Object.key c) = _ at settles
  rw [key] at settles
  have stays := (puts.find_other (by decide) _).trans stored
  refine ⟨ok, Store.uidOf n, _, p, identity, ?_, ?_, settles, stays⟩
  · exact identity
  · rfl

theorem run_settledClaim (backed : s.Backed)
    (found : s.find .portClaim (ObjectRef.key ⟨some ns, name⟩) = some c)
    (live : c.isBeingDeleted = false) (settled : c.phase = some .settled)
    (ran : s.run now (portClaim claimPrefix ns name) = (o, t)) :
    o = .ok () ∧ ∃ (uid : String) (p : Port), c.metadata.uid = some uid ∧
      t.find .portClaim (ObjectRef.key ⟨some ns, name⟩) = some c ∧
      t.find .port (portNameForClaim uid) = some p := by
  obtain ⟨proper, hasNamespace, _⟩ := backed.fits _ _ c found
  obtain ⟨_, within⟩ := Option.ne_none_iff_exists'.mp hasNamespace
  obtain ⟨portName, bound⟩ := Option.ne_none_iff_exists'.mp (proper.recorded.settled settled)
  obtain ⟨uid, identity, rfl⟩ := proper.recorded.own portName bound
  have backing : c.backingPortName = some (portNameForClaim uid) := by
    rw [PortClaim.backingPortName, bound]
    rfl
  rw [portClaim, run_find found] at ran
  simp only [live, settled, healClaim, backing, Bool.false_eq_true, if_false] at ran
  cases stored : s.find .port (ObjectRef.key ⟨none, portNameForClaim uid⟩) with
  | some p =>
    rw [run_find stored] at ran
    cases ran
    exact ⟨rfl, uid, p, identity, found, stored⟩
  | none =>
    rw [run_find_absent stored] at ran
    obtain ⟨mid, goes, ⟨p, stored⟩, sameClaims, _⟩ := run_ensureBackingPort s now
      (fun _ => finish) within identity
    rw [goes] at ran
    cases ran
    exact ⟨rfl, uid, p, identity, (sameClaims _).trans found, stored⟩

end Reconcile

/-- Whatever fails in between and wherever passes stop, a port that refers to a claim stands under
the name for the claim's uid and is like that claim, so there is one at most; that its name is taken
is no error; and one undisturbed pass leaves a claim that waits, or has settled, with its port. -/
theorem claims_backed_once {claimPrefix : String} {S : Cluster}
    (reachable : S.FaultyReachable Request.MayFail (fun _ act => act.CreatesUnbacked)
      claimPrefix) :
    (∀ key (p : Port) r, S.store.find .port key = some p → p.spec.claimRef = some r →
        p.metadata.name = some (portNameForClaim r.uid) ∧
          ∀ key' (c : PortClaim), S.store.find .portClaim key' = some c →
            c.metadata.uid = some r.uid → c.metadata.namespace_ = some r.namespace_ ∧
              c.metadata.name = some r.name ∧ p.spec.classRef = c.spec.classRef) ∧
      (∀ key key' (p p' : Port) r r', S.store.find .port key = some p →
        S.store.find .port key' = some p' → p.spec.claimRef = some r →
        p'.spec.claimRef = some r' → r.uid = r'.uid → key = key') ∧
      (∀ p ∈ S.running, ∀ e, p.rest = .done (.error (.store e)) → e.isAlreadyExists = false) ∧
      ∀ now ns name (c : PortClaim) o t, S.store.failNextStatusWrite = false →
        S.store.find .portClaim (ObjectRef.key ⟨some ns, name⟩) = some c →
        c.isBeingDeleted = false →
        S.store.run now (Reconcile.portClaim claimPrefix ns name) = (o, t) →
        (c.phase = some .pending → o = .ok () ∧ ∃ c' : PortClaim,
          t.find .portClaim (ObjectRef.key ⟨some ns, name⟩) = some c' ∧
            c'.metadata.uid = c.metadata.uid ∧ c'.phase = some .settled ∧ c'.BackedIn t) ∧
        (c.phase = some .settled → o = .ok () ∧
          t.find .portClaim (ObjectRef.key ⟨some ns, name⟩) = some c ∧ c.BackedIn t) := by
  have upheld := Course.backings_upheld Request.MayFail claimPrefix
  have holds := Discipline.holds_of_faultyReachable upheld
    (Course.coordinated Course.backings_allow) reachable
  have backed : S.store.Backed := holds.inv
  refine ⟨?_, ?_, ?_, ?_⟩
  · intro key p r found refers
    obtain ⟨named, under, _, claim⟩ := (backed.fits _ key p found).1 r refers
    exact ⟨by rw [named, under], claim⟩
  · intro key key' p p' r r' found found' refers refers' same
    have under := ((backed.fits _ key p found).1 r refers).under
    have under' := ((backed.fits _ key' p' found').1 r' refers').under
    rw [under, under', same]
  · intro p member e is
    have ends := Cluster.unclashed reachable p member
    rw [is] at ends
    exact ends e rfl
  · intro now ns name c o t unarmed found live ran
    -- the invariant holds at the end of the pass as well
    have backed' : t.Backed := by
      have safe := Discipline.safe_portClaim (s := S.store) upheld ns name
      have kept := safe.run now backed
      rwa [ran] at kept
    constructor
    · intro waiting
      obtain ⟨ok, uid, c', p, identity, identity', settled, found', stored⟩ :=
        Reconcile.run_pendingClaim backed unarmed found live waiting ran
      exact ⟨ok, c', found', identity'.trans identity.symm, settled,
        backed'.backs found' identity' settled stored⟩
    · intro settled
      obtain ⟨ok, uid, p, identity, found', stored⟩ :=
        Reconcile.run_settledClaim backed found live settled ran
      exact ⟨ok, found', backed'.backs found' identity settled stored⟩

open Cluster (noon)

def claimHalfBound : List Cluster.Move :=
  .act (.insert .portClaim ⟨{ name := some "web", namespace_ := some "t" }, ⟨"c"⟩, none⟩ noon) ::
  Cluster.Move.whole .portClaim ⟨some "t", "web"⟩ 2 ++
  [.start noon .portClaim ⟨some "t", "web"⟩, .call 0 noon, .call 0 noon]

theorem claims_backed_once_recovered :
    ∃ (S : Cluster) (t : Store),
      S.FaultyReachable Request.MayFail (fun _ act => act.CreatesUnbacked) "claims" ∧
      (S.store.find .port ("claim-" ++ Store.uidOf 1)).isSome = true ∧
      S.store.run noon (Reconcile.portClaim "claims" "t" "web") = (.ok (), t) ∧
      ∃ c : PortClaim, t.find .portClaim "t/web" = some c ∧ c.phase = some .settled ∧
        c.BackedIn t := by
  have before : (Cluster.after "claims" claimHalfBound).FaultyReachable Request.MayFail
      (fun _ act => act.CreatesUnbacked) "claims" :=
    Cluster.FaultyReachable.steps .refl
      (Cluster.reachable_after (fun _ _ fit => fit) (by decide +kernel) (by decide +kernel))
  -- the status write of that pass gets lost
  have ends : ((Cluster.after "claims" claimHalfBound).failAt 0 .serialization).any (fun S =>
      decide ((S.store.find .port ("claim-" ++ Store.uidOf 1)).isSome = true ∧
        S.store.failNextStatusWrite = false) &&
      (S.store.find .portClaim "t/web").any fun c =>
        decide (c.isBeingDeleted = false ∧ c.phase = some .pending)) = true := by decide +kernel
  obtain ⟨S, failed, is⟩ := (Option.any_eq_true ..).mp ends
  obtain ⟨armed, claim⟩ := (Bool.and_eq_true ..).mp is
  obtain ⟨made, unarmed⟩ := of_decide_eq_true armed
  obtain ⟨c, found, is⟩ := (Option.any_eq_true ..).mp claim
  obtain ⟨live, waiting⟩ := of_decide_eq_true is
  have possible : ∀ r, Request.MayFail r .serialization := by
    intro r taken
    contradiction
  have reachable : S.FaultyReachable Request.MayFail (fun _ act => act.CreatesUnbacked) "claims" :=
    before.tail (Cluster.failAt_step possible failed)
  obtain ⟨_, _, _, undisturbed⟩ := claims_backed_once reachable
  obtain ⟨ok, c', found', _, settled, backed⟩ :=
    (undisturbed noon "t" "web" c _ _ unarmed found live rfl).1 waiting
  exact ⟨S, _, reachable, made, Prod.ext ok rfl, c', found', settled, backed⟩

end HostPorts
