import HostPorts.Proofs.Pass.Termination

/-!
Orphans: ports whose claim is not stored any more. A pass looks for the claim of a port only once
the port has a number, or is under deletion. So an orphan goes within six passes just if it has a
number or can get one (`orphan_reclaimed_iff`); one that waits for a class that is missing, or for a
number where none is free, waits for ever (`orphan_waits_for_class`).
-/
namespace HostPorts

namespace Store

variable {s s' : Store} {name : String} {p p' : Port}

/-- A port that has outlived its claim, and that nothing but its own token holds. -/
structure Orphaned (s : Store) (name : String) (p : Port) : Prop where
  stored : s.find .port name = some p
  placed : p.PlacedAt name
  unclaimed : ∃ r, p.spec.claimRef = some r ∧ s.hasClaim r = false
  tokens : ∀ f ∈ p.metadata.finalizerList, f = ProtectionToken.ofPort.text
  held : p.isBeingDeleted = true → p.metadata.finalizerList ≠ []

/-- The port is leaving, has a number, or gets one as things stand. -/
def Reclaims (s : Store) (p : Port) : Prop :=
  p.isBeingDeleted = true ∨ p.phase = some .settled ∨
    (p.phase = none ∨ p.phase = some .pending) ∧ s.find .portClass p.spec.classRef ≠ none ∧
      ∃ a, p.allocation s.pools.values s.ports.values = .ok a

def passesOver (name : String) : List Timestamp → Store → Store
  | [], s => s
  | at_ :: later, s => passesOver name later (s.run at_ (Reconcile.port name)).2

theorem isOccupied_mono {number : UInt16}
    (others : ∀ key (q : Port), s.find .port key = some q → q.displayName ≠ name →
      s'.find .port key = some q)
    (taken : Port.isOccupied name s.ports.values number = true) :
    Port.isOccupied name s'.ports.values number = true := by
  simp only [Port.isOccupied, Selection.occupiedPorts, List.any_eq_true, List.mem_filter] at taken ⊢
  obtain ⟨q, ⟨listed, holds⟩, is⟩ := taken
  obtain ⟨key, found⟩ := Store.mem_values (k := .port).mp listed
  have apart : q.displayName ≠ name := by
    rw [Bool.and_eq_true, decide_eq_true_eq] at is
    exact is.1
  exact ⟨q, ⟨Store.mem_values (k := .port).mpr ⟨key, others key q found apart⟩, holds⟩, is⟩

theorem Puts.allocation (puts : s.Puts s' .port name (some p'))
    (stored : s.find .port name = some p) (shown : p.displayName = name)
    (shown' : p'.displayName = name) (spec : p'.spec = p.spec) :
    p'.allocation s'.pools.values s'.ports.values = p.allocation s.pools.values s.ports.values := by
  have pools : s'.pools = s.pools := puts.other .portPool (by decide)
  have occupied : Port.isOccupied name s'.ports.values = Port.isOccupied name s.ports.values := by
    funext number
    rw [Bool.eq_iff_iff]
    constructor
    · apply isOccupied_mono
      intro key q found apart
      rcases puts.find_same found with ⟨_, is⟩ | ⟨_, before⟩
      · cases is
        exact absurd shown' apart
      · exact before
    · apply isOccupied_mono
      intro key q found apart
      rw [puts.beside key, found]
      rintro rfl
      cases stored.symm.trans found
      exact apart shown
  rw [Port.allocation, Port.allocation, spec, shown, shown', pools, occupied]

namespace Orphaned

theorem next (h : s.Orphaned name p) (puts : s.Puts s' .port name (some p'))
    (succeeds : p'.Succeeds p)
    (finalizers : p'.metadata.finalizerList = p.metadata.finalizerList)
    (held : p'.isBeingDeleted = true → p.metadata.finalizerList ≠ []) : s'.Orphaned name p' := by
  obtain ⟨r, owner, gone⟩ := h.unclaimed
  refine ⟨puts.here, h.placed.next succeeds, ⟨r, succeeds.spec ▸ owner, ?_⟩, ?_, ?_⟩
  · rwa [hasClaim, puts.find_other (by decide)]
  · rw [finalizers]
    exact h.tokens
  · rw [finalizers]
    exact held

theorem isProtected (h : s.Orphaned name p) (deleted : p.isBeingDeleted = true) :
    p.isProtected = true :=
  Object.isProtected_of_tokens (k := .port) rfl (h.held deleted) h.tokens

theorem released_kept (h : s.Orphaned name p) (deleted : p.isBeingDeleted = true)
    (version : String) : (p.released.withVersion version).kept = none :=
  Object.kept_released (k := .port) rfl deleted h.tokens version

theorem of_unchanged (h : s.Orphaned name p) (same : s.Unchanged s') : s'.Orphaned name p := by
  obtain ⟨r, owner, gone⟩ := h.unclaimed
  refine ⟨(same.find ..).trans h.stored, h.placed, ⟨r, owner, ?_⟩, h.tokens, h.held⟩
  rwa [hasClaim, same.find]

open Reconcile (StatusWrite Due Idle)

theorem reclaims_next {now : Timestamp} {new : Port} (h : s.Orphaned name p)
    (write : StatusWrite now s p new)
    (puts : s.Puts s' .port name (some (new.withVersion s.nextVersion))) :
    s'.Reclaims (new.withVersion s.nextVersion) ↔ s.Reclaims p := by
  have placed := h.placed.next (write.succeeds s.nextVersion)
  have spec := (write.succeeds s.nextVersion).spec
  have same := puts.allocation h.stored h.placed.displayName placed.displayName spec
  have still := write.isBeingDeleted s.nextVersion
  cases write with
  | mark _ deleted => exact iff_of_true (Or.inl (still.trans deleted)) (Or.inl deleted)
  | portPending live first =>
    have pending : Object.phase (Object.withVersion
        { p with status := some ⟨some .pending, 0, none⟩ } s.nextVersion) = some .pending := rfl
    rw [Reclaims, Reclaims, same, spec, still, pending, puts.find_other (by decide)]
    simp [live, first]
  | allocated live waiting served choice =>
    refine iff_of_true (Or.inr (Or.inl rfl)) (Or.inr (Or.inr ⟨Or.inr waiting, served, _, choice⟩))

theorem not_reclaims_of_idle {claimPrefix : String} {outcome : Outcome} (h : s.Orphaned name p)
    (idle : Idle claimPrefix s p outcome) : ¬ s.Reclaims p := by
  obtain ⟨r, owner, gone⟩ := h.unclaimed
  cases idle with
  | released deleted _ free => simp [h.isProtected deleted] at free
  | needed _ _ dependent =>
    obtain ⟨r', owner', lives⟩ := dependent
    cases owner.symm.trans owner'
    simp [gone] at lives
  | settled kinds => simp at kinds
  | classless live waiting absent => simp [Reclaims, live, waiting, absent]
  | unserved live waiting served failed => simp [Reclaims, live, waiting, failed]
  | owned _ _ lives => simp [lives r owner] at gone
  | misplaced _ live leaving => simp [Reclaims, live, leaving]

def Follows (s s' : Store) (name : String) (p : Port) : Prop :=
  (s'.find .port name = none ∧ s.Reclaims p) ∨
    ∃ p', s'.Orphaned name p' ∧ (s'.Reclaims p' ↔ s.Reclaims p) ∧
      (s.Reclaims p → p'.writesAhead + s'.failNextStatusWrite.toNat <
        p.writesAhead + s.failNextStatusWrite.toNat)

theorem follows_statusWrite {now : Timestamp} {new : Port} (h : s.Orphaned name p)
    (write : StatusWrite now s p new) (at_ : Timestamp) :
    Follows s (s.run at_ (Reconcile.writeStatus new)).2 name p := by
  have here : s.find .port p.key = some p := by
    rw [h.placed.keyed]
    exact h.stored
  rcases Reconcile.run_statusWrite at_ write here with
    ⟨armed, fails⟩ | ⟨unarmed, _, unarmed', puts⟩
  · rw [fails]
    refine Or.inr ⟨p, h.of_unchanged ⟨fun k => by cases k <;> rfl, rfl, rfl⟩, Iff.rfl, fun _ => ?_⟩
    simp [armed]
  · have finalizers : (new.withVersion s.nextVersion).metadata.finalizerList =
        p.metadata.finalizerList := by
      rw [write.only]
      rfl
    have held : (new.withVersion s.nextVersion).isBeingDeleted = true →
        p.metadata.finalizerList ≠ [] := by
      rw [write.isBeingDeleted]
      exact h.held
    have kept : (new.withVersion s.nextVersion).kept = some (new.withVersion s.nextVersion) := by
      cases deleted : (new.withVersion s.nextVersion).isBeingDeleted with
      | false => exact Object.kept_of_not_deleted deleted
      | true => exact Object.kept_of_held (by rw [finalizers]; exact held deleted)
    rw [h.placed.keyed, kept] at puts
    refine Or.inr ⟨_, h.next puts (write.succeeds _) finalizers held, h.reclaims_next write puts,
      fun _ => ?_⟩
    rw [Object.writesAhead_withVersion, unarmed, unarmed']
    exact Nat.add_lt_add_right (Object.writesAhead_lt write) _

theorem follows_pass (h : s.Orphaned name p) (at_ : Timestamp) :
    Follows s (s.run at_ (Reconcile.port name)).2 name p := by
  -- for what time and prefix of annotations does not matter for ports
  obtain ⟨rest, due, comes⟩ := Reconcile.comes_port at_ at_ "" h.stored
  have here : s.find .port p.key = some p := by
    rw [h.placed.keyed]
    exact h.stored
  rw [comes]
  cases due with
  | idle idle =>
    exact Or.inr ⟨p, h, Iff.rfl, fun reclaims => absurd reclaims (h.not_reclaims_of_idle idle)⟩
  | status write => exact h.follows_statusWrite write at_
  | release deleted =>
    have puts := (Reconcile.run_release at_ here).2.2
    rw [h.placed.keyed, h.released_kept deleted] at puts
    exact Or.inl ⟨puts.here, Or.inl deleted⟩
  | reclaim live settled =>
    have shown : s.find .port p.displayName = some p := by
      rw [h.placed.displayName]
      exact h.stored
    obtain ⟨_, armed, change⟩ := Store.deletePort_puts at_ shown live
    rw [h.placed.displayName] at change
    rw [Reconcile.run_commit]
    rcases change with ⟨_, puts⟩ | ⟨held, puts⟩
    · exact Or.inl ⟨puts.here, Or.inr (Or.inl settled)⟩
    · have orphaned := h.next puts (p.marked_succeeds ..) rfl fun _ => held
      refine Or.inr ⟨_, orphaned, iff_of_true (Or.inl rfl) (Or.inr (Or.inl settled)), fun _ => ?_⟩
      have settled' : (p.marked at_ s.nextVersion).phase = some .settled := settled
      have deleted : (p.marked at_ s.nextVersion).isBeingDeleted = true := rfl
      have fewer : (p.marked at_ s.nextVersion).writesAhead < p.writesAhead := by
        simp [Object.writesAhead, live, settled, deleted, settled']
      rw [Store.answer, armed]
      exact Nat.add_lt_add_right fewer _

end Orphaned

theorem passesOver_absent (times : List Timestamp) (absent : s.find .port name = none) :
    (s.passesOver name times).find .port name = none := by
  induction times with
  | nil => exact absent
  | cons at_ later ih =>
    have nowhere : s.find .port (Reconcile.subject .port ⟨none, name⟩).key = none := absent
    have idle := Reconcile.run_pass_absent at_ at_ "" (Or.inr nowhere)
    rw [Reconcile.pass] at idle
    rwa [passesOver, idle]

namespace Orphaned

theorem writesAhead_pos (h : s.Orphaned name p) (reclaims : s.Reclaims p) : 0 < p.writesAhead := by
  rcases reclaims with deleted | settled | ⟨phase, _⟩
  · have held := h.isProtected deleted
    simp only [Object.writesAhead, deleted, held, if_true]
    split <;> decide
  · cases deleted : p.isBeingDeleted <;> simp [Object.writesAhead, deleted, settled]
  · cases deleted : p.isBeingDeleted with
    | true => rcases phase with phase | phase <;> simp [Object.writesAhead, deleted, phase]
    | false => rcases phase with phase | phase <;> simp [Object.writesAhead, deleted, phase]

theorem goes {times : List Timestamp} (h : s.Orphaned name p) (reclaims : s.Reclaims p)
    (enough : p.writesAhead + s.failNextStatusWrite.toNat ≤ times.length) :
    (s.passesOver name times).find .port name = none := by
  induction times generalizing s p with
  | nil =>
    have := h.writesAhead_pos reclaims
    rw [List.length_nil] at enough
    omega
  | cons at_ later ih =>
    rcases h.follows_pass at_ with ⟨gone, _⟩ | ⟨p', h', reclaims', fewer⟩
    · exact passesOver_absent later gone
    · have := fewer reclaims
      rw [List.length_cons] at enough
      exact ih h' (reclaims'.mpr reclaims) (by omega)

theorem stays (h : s.Orphaned name p) (waits : ¬ s.Reclaims p) (times : List Timestamp) :
    ∃ p', (s.passesOver name times).find .port name = some p' := by
  induction times generalizing s p with
  | nil => exact ⟨p, h.stored⟩
  | cons at_ later ih =>
    rcases h.follows_pass at_ with ⟨_, reclaims⟩ | ⟨p', h', reclaims', _⟩
    · exact absurd reclaims waits
    · exact ih h' fun reclaims => waits (reclaims'.mp reclaims)

end Orphaned

/-- Six passes take an orphan away if it is leaving, has a number or gets one as things stand, and
otherwise no number of passes does. -/
theorem orphan_reclaimed_iff (h : s.Orphaned name p) {times : List Timestamp}
    (six : 6 ≤ times.length) :
    (s.passesOver name times).find .port name = none ↔
      p.isBeingDeleted = true ∨ p.phase = some .settled ∨
        (p.phase = none ∨ p.phase = some .pending) ∧
          s.find .portClass p.spec.classRef ≠ none ∧
          ∃ a, p.allocation s.pools.values s.ports.values = .ok a := by
  constructor
  · intro gone
    by_cases reclaims : s.Reclaims p
    · exact reclaims
    · obtain ⟨p', stored⟩ := h.stays reclaims times
      rw [gone] at stored
      contradiction
  · intro reclaims
    apply h.goes reclaims
    have ahead : p.writesAhead ≤ 5 := by
      have checks : Object.checksAhead p = 0 := rfl
      rw [Object.writesAhead, checks]
      repeat' split
      all_goals decide
    have armed := s.failNextStatusWrite.toNat_le
    omega

open Cluster (noon)

def orphanServed : Store where
  classes := .ofList [("c", ⟨{ name := some "c" }, ⟨⟩, some ⟨some .settled⟩⟩)]
  pools := .ofList [("n",
    ⟨{ name := some "n" }, ⟨"c", 5000, 5001, true⟩, some ⟨some .settled, []⟩⟩)]
  ports := .ofList
    [("a", ⟨{ name := some "a" }, ⟨none, "c"⟩, some ⟨some .settled, 5000, some "n"⟩⟩),
      ("claim-u",
        ⟨{ name := some "claim-u", finalizers := some [ProtectionToken.ofPort.text] },
          ⟨some ⟨"t", "web", "u"⟩, "c"⟩, none⟩)]
  failNextStatusWrite := true

theorem orphan_reclaimed_served :
    ∃ p, orphanServed.Orphaned "claim-u" p ∧ 6 ≤ (List.replicate 6 noon).length ∧
      (orphanServed.passesOver "claim-u" (List.replicate 6 noon)).find .port "claim-u" = none := by
  have stored : ∃ p ∈ orphanServed.find .port "claim-u", p.PlacedAt "claim-u" ∧
      p.spec.claimRef = some ⟨"t", "web", "u"⟩ ∧
      (∀ f ∈ p.metadata.finalizerList, f = ProtectionToken.ofPort.text) ∧
      p.isBeingDeleted = false ∧ p.phase = none ∧ p.spec.classRef = "c" ∧
      (Port.allocation p orphanServed.pools.values orphanServed.ports.values).toOption =
        some ⟨5001, "n"⟩ := by decide +kernel
  obtain ⟨p, stored, placed, owner, tokens, live, phase, ofClass, choice⟩ := stored
  have orphaned : orphanServed.Orphaned "claim-u" p :=
    ⟨stored, placed, ⟨_, owner, by decide +kernel⟩, tokens, by simp [live]⟩
  refine ⟨p, orphaned, by decide, (orphan_reclaimed_iff orphaned (by decide)).mpr ?_⟩
  refine Or.inr (Or.inr ⟨Or.inl phase, ?_, ?_⟩)
  · rw [ofClass]
    decide +kernel
  · cases result :
        Port.allocation p orphanServed.pools.values orphanServed.ports.values with
    | error e => simp [result, Except.toOption] at choice
    | ok a => exact ⟨a, rfl⟩

def abandonedClaim : List SerialMove :=
  [.act (.insert .portClaim
      ⟨{ name := some "web", namespace_ := some "t",
         finalizers := some [ProtectionToken.ofClaim.text] }, ⟨"c"⟩, none⟩ noon),
    .pass noon .portClaim ⟨some "t", "web"⟩, .pass noon .portClaim ⟨some "t", "web"⟩,
    .act (.delete .portClaim ⟨some "t", "web"⟩ noon),
    .pass noon .portClaim ⟨some "t", "web"⟩, .pass noon .portClaim ⟨some "t", "web"⟩]

/-- Nothing looks for the claim of a port that waits for its class. -/
theorem orphan_waits_for_class :
    ¬ ∀ (s : Store) (name : String) (p : Port), s.Orphaned name p →
      p.phase ≠ some .deleting ∨ p.isBeingDeleted = true →
      ∀ times : List Timestamp, times.length = 6 →
        (s.passesOver name times).find .port name = none := by
  intro all
  let s := abandonedClaim.foldl (SerialMove.play "claims") {}
  let name := portNameForClaim (uidOf 1)
  have stored : ∃ p ∈ s.find .port name, p.PlacedAt name ∧
      p.spec.claimRef = some ⟨"t", "web", uidOf 1⟩ ∧
      (∀ f ∈ p.metadata.finalizerList, f = ProtectionToken.ofPort.text) ∧
      p.isBeingDeleted = false ∧ p.phase = none ∧ p.spec.classRef = "c" := by decide +kernel
  have gone : s.hasClaim ⟨"t", "web", uidOf 1⟩ = false := by decide +kernel
  have unserved : s.find .portClass "c" = none := by decide +kernel
  obtain ⟨p, stored, placed, owner, tokens, live, phase, ofClass⟩ := stored
  have orphaned : s.Orphaned name p :=
    ⟨stored, placed, ⟨_, owner, gone⟩, tokens, by simp [live]⟩
  have waits : ¬ s.Reclaims p := by simp [Reclaims, live, phase, ofClass, unserved]
  obtain ⟨_, still⟩ := orphaned.stays waits (List.replicate 6 noon)
  rw [all s name p orphaned (Or.inl (by simp [phase])) _ rfl] at still
  contradiction

end Store
end HostPorts
