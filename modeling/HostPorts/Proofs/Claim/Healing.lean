import HostPorts.Proofs.Pass.Runs
import HostPorts.Proofs.Pass.Strokes

/-!
Settled claims whose port has gone. A pass looks for the port under the name that the claim records,
but makes it again under the name that belongs to the claim's uid. So the port is back after one
pass, and left alone by all later ones, just if the two names are the same; otherwise no number of
passes brings it back, and each of them tries to make the other port anew
(`settled_claim_heals_iff`).
-/
namespace HostPorts

structure PortClaim.SettledAt (c : PortClaim) (key uid : String) : Prop where
  placed : c.PlacedAt key
  identity : c.metadata.uid = some uid
  settled : c.phase = some .settled
  live : c.isBeingDeleted = false

namespace Store

def tended (claimPrefix : String) (claim : ObjectRef) : List Timestamp → Store → Store
  | [], s => s
  | at_ :: later, s =>
    tended claimPrefix claim later
      (s.run at_ (Reconcile.pass at_ claimPrefix .portClaim claim)).2

/-- What a pass over a settled claim makes of a store: the port is there, or is made, or another
port is tried to be made in its stead. -/
inductive Heals (s s' : Store) (uid name : String) : Prop where
  | found (stored : s.find .port name ≠ none) (same : s' = s)
  | made (absent : s.find .port name = none) (own : name = portNameForClaim uid)
      (stored : s'.find .port name ≠ none) (counted : s'.writes = s.writes + 1)
  | missed (absent : s.find .port name = none) (other : name ≠ portNameForClaim uid)
      (absent' : s'.find .port name = none) (counted : s'.writes = s.writes + 1)

theorem writes_createPort (now : Timestamp) (port : Port) (s : Store) :
    (s.answer now (.createPort port)).2.writes = s.writes + 1 := by
  simp only [answer, insert]
  split <;> rfl

variable {s s' : Store} {c : PortClaim} {uid name : String}

theorem Heals.stored_iff (h : s.Heals s' uid name) :
    s'.find .port name ≠ none ↔ s.find .port name ≠ none ∨ name = portNameForClaim uid := by
  cases h with
  | found stored same => simp [same, stored]
  | made _ own stored => simp [own ▸ stored, own]
  | missed absent other absent' => simp [absent, other, absent']

theorem Heals.quiet_iff (h : s.Heals s' uid name) :
    s'.writes = s.writes ↔ s.find .port name ≠ none := by
  cases h with
  | found stored same => simp [same, stored]
  | made absent _ _ counted => simp [absent, counted]
  | missed absent _ _ counted => simp [absent, counted]

end Store

namespace Reconcile

variable {now at_ : Timestamp} {claimPrefix key uid name : String} {s : Store} {c : PortClaim}

theorem due_of_settledAt {p : Pass Outcome} (claim : c.SettledAt key uid)
    (backing : c.backingPortName = some name) (due : Due now claimPrefix s c p) :
    p = finish ∧ s.find .port name ≠ none ∨
      p = ensureBackingPort c (fun _ => finish) ∧ s.find .port name = none := by
  obtain ⟨placed, identity, settled, live⟩ := claim
  cases due with
  | idle idle =>
    cases idle with
    | backed _ _ backing' stored =>
      cases backing.symm.trans backing'
      exact Or.inl ⟨rfl, stored⟩
    | incomplete _ _ missing =>
      rcases missing with nowhere | unidentified
      · exact absurd (placed.within.mp nowhere) (by decide)
      · simp [identity] at unidentified
    | released deleted | needed deleted => simp [live] at deleted
    | settled kinds => simp at kinds
    | misplaced _ _ leaving => simp [settled] at leaving
  | status write => simpa [settled] using write.early live
  | release deleted => simp [live] at deleted
  | bind _ waiting => simp [settled] at waiting
  | restore _ _ backing' absent =>
    cases backing.symm.trans backing'
    exact Or.inr ⟨rfl, absent⟩

theorem run_ensureBackingPort_finish {ns : String} (within : c.metadata.namespace_ = some ns)
    (identity : c.metadata.uid = some uid) :
    s.run at_ (ensureBackingPort c fun _ => finish) =
      (.ok (), (s.answer at_ (.createPort (c.backingPort ns uid))).2) := by
  cases taken : s.find .port (portNameForClaim uid) with
  | none =>
    obtain ⟨t, creates, _⟩ := Store.createPort_free at_ (c.backingPort ns uid) taken
    simp only [ensureBackingPort, within, identity, Store.run, Pass.run, creates]
    rfl
  | some p =>
    rw [run_ensureBackingPort_taken at_ _ within identity taken,
      Store.createPort_taken at_ (c.backingPort ns uid) taken]
    rfl

theorem heals_createPort {ns : String} (absent : s.find .port name = none) :
    s.Heals (s.answer at_ (.createPort (c.backingPort ns uid))).2 uid name := by
  have counted := Store.writes_createPort at_ (c.backingPort ns uid) s
  cases taken : s.find .port (portNameForClaim uid) with
  | none =>
    obtain ⟨t, creates, _, puts⟩ := Store.createPort_free at_ (c.backingPort ns uid) taken
    rw [creates] at counted ⊢
    have stored : t.find .port (portNameForClaim uid) = _ := puts.here
    by_cases own : name = portNameForClaim uid
    · exact .made absent own (by simp [own, stored]) counted
    · exact .missed absent own ((puts.beside name own).trans absent) counted
  | some p =>
    have other : name ≠ portNameForClaim uid := by
      rintro rfl
      simp [taken] at absent
    rw [Store.createPort_taken at_ (c.backingPort ns uid) taken] at counted ⊢
    exact .missed absent other (((Store.unchanged_countWrite s).find ..).trans absent) counted

theorem run_settledAt (now at_ : Timestamp) (claimPrefix : String) (claim : c.SettledAt key uid)
    (backing : c.backingPortName = some name) (stored : s.find .portClaim key = some c) :
    (s.run at_ (pass now claimPrefix .portClaim c.ref)).1 = .ok () ∧
      (s.run at_ (pass now claimPrefix .portClaim c.ref)).2.find .portClaim key = some c ∧
      s.Heals (s.run at_ (pass now claimPrefix .portClaim c.ref)).2 uid name := by
  have here := stored
  rw [← claim.placed.subject] at here
  obtain ⟨p, due, comes⟩ := comes_to_due now at_ claimPrefix (by decide) here
  rw [comes]
  rcases due_of_settledAt claim backing due with ⟨rfl, there⟩ | ⟨rfl, absent⟩
  · exact ⟨rfl, stored, .found there rfl⟩
  · have inside : c.metadata.namespace_ ≠ none := by
      intro nowhere
      exact absurd (claim.placed.within.mp nowhere) (by decide)
    obtain ⟨ns, within⟩ := Option.ne_none_iff_exists'.mp inside
    rw [run_ensureBackingPort_finish within claim.identity]
    refine ⟨rfl, ?_, heals_createPort absent⟩
    rcases Store.createPort_cases at_ (c.backingPort ns uid) s with same | ⟨_, _, puts⟩
    · exact (same.find ..).trans stored
    · exact (puts.find_other (by decide) key).trans stored

end Reconcile

namespace Store

variable {key uid name : String} {s : Store} {c : PortClaim}

theorem stored_tended (claimPrefix : String) (claim : c.SettledAt key uid)
    (backing : c.backingPortName = some name) (stored : s.find .portClaim key = some c)
    (times : List Timestamp) :
    (s.tended claimPrefix c.ref times).find .portClaim key = some c ∧
      ((s.tended claimPrefix c.ref times).find .port name ≠ none ∨ name = portNameForClaim uid ↔
        s.find .port name ≠ none ∨ name = portNameForClaim uid) ∧
      (times ≠ [] → ((s.tended claimPrefix c.ref times).find .port name ≠ none ↔
        s.find .port name ≠ none ∨ name = portNameForClaim uid)) := by
  induction times generalizing s with
  | nil => exact ⟨stored, Iff.rfl, fun some => absurd rfl some⟩
  | cons at_ later ih =>
    obtain ⟨_, stored', heals⟩ :=
      Reconcile.run_settledAt at_ at_ claimPrefix claim backing stored
    obtain ⟨kept, stands, back⟩ := ih stored'
    rw [heals.stored_iff, or_assoc, or_self] at stands back
    refine ⟨kept, stands, fun _ => ?_⟩
    cases later with
    | nil => exact heals.stored_iff
    | cons at_ rest => exact back (List.cons_ne_nil at_ rest)

end Store

open Reconcile (pass)

/-- Passes over a settled claim succeed. From the first one on the port that the claim names is
there, and further passes write nothing, if it was there before or the name is that of the claim's
own port; otherwise the port stays missing, and each pass writes again. -/
theorem settled_claim_heals_iff {s : Store} {c : PortClaim} {key uid : String}
    (claim : c.SettledAt key uid) (stored : s.find .portClaim key = some c)
    (claimPrefix : String) :
    ∃ name, c.backingPortName = some name ∧ Dependency.claimToPort c = some ⟨none, name⟩ ∧
      ∀ (times : List Timestamp) (at_ : Timestamp),
        let s' := s.tended claimPrefix c.ref times
        (s'.run at_ (pass at_ claimPrefix .portClaim c.ref)).1 = .ok () ∧
        (times ≠ [] →
          (s'.find .port name ≠ none ↔
            s.find .port name ≠ none ∨ name = portNameForClaim uid) ∧
          ((s'.run at_ (pass at_ claimPrefix .portClaim c.ref)).2.writes = s'.writes ↔
            s.find .port name ≠ none ∨ name = portNameForClaim uid)) := by
  have named : c.backingPortName ≠ none := by simp [PortClaim.backingPortName, claim.identity]
  obtain ⟨name, backing⟩ := Option.ne_none_iff_exists'.mp named
  refine ⟨name, backing, by rw [Dependency.claimToPort, backing]; rfl, ?_⟩
  intro times at_ s'
  obtain ⟨stored', _, back⟩ := Store.stored_tended claimPrefix claim backing stored times
  obtain ⟨ok, _, heals⟩ := Reconcile.run_settledAt at_ at_ claimPrefix claim backing stored'
  refine ⟨ok, fun some => ⟨back some, ?_⟩⟩
  rw [heals.quiet_iff, back some]

open Cluster (noon)

def settledClaim (recorded : Option String) : Store :=
  (Store.insert noon (k := .portClaim)
    ⟨{ name := some "web", namespace_ := some "t" }, ⟨"c"⟩, some ⟨some .settled, recorded⟩⟩ {}).2

theorem settledClaim_stored (recorded : Option String) :
    ∃ c : PortClaim, (settledClaim recorded).find .portClaim "t/web" = some c ∧
      c.boundPortName = recorded ∧ c.SettledAt "t/web" (Store.uidOf 1) := by
  exact ⟨_, rfl, rfl, ⟨⟨rfl, nofun, iff_of_false nofun nofun⟩, rfl, rfl, rfl⟩⟩

theorem settled_claim_heals_iff_unrecorded :
    ∃ (c : PortClaim) (name : String),
      (settledClaim none).find .portClaim "t/web" = some c ∧
      c.SettledAt "t/web" (Store.uidOf 1) ∧ c.backingPortName = some name ∧
      (settledClaim none).find .port name = none ∧
      let s' := (settledClaim none).tended "claims" c.ref [noon]
      s'.find .port name ≠ none ∧
        (s'.run noon (pass noon "claims" .portClaim c.ref)).2.writes = s'.writes := by
  obtain ⟨c, stored, unrecorded, claim⟩ := settledClaim_stored none
  obtain ⟨name, backing, _, after⟩ := settled_claim_heals_iff claim stored "claims"
  have own : name = portNameForClaim (Store.uidOf 1) := by
    rw [PortClaim.backingPortName, unrecorded, claim.identity] at backing
    exact (Option.some.inj backing).symm
  obtain ⟨back, quiet⟩ := (after [noon] noon).2 (List.cons_ne_nil noon [])
  exact ⟨c, name, stored, claim, backing, own ▸ rfl, back.mpr (Or.inr own), quiet.mpr (Or.inr own)⟩

/-- Under another name than its own the port of a claim does not come back. -/
theorem recorded_port_stays_missing :
    ¬ ∀ (s : Store) (c : PortClaim) (key uid name claimPrefix : String) (at_ : Timestamp),
      c.SettledAt key uid → s.find .portClaim key = some c → c.backingPortName = some name →
      (s.run at_ (pass at_ claimPrefix .portClaim c.ref)).1 = .ok () →
      let s' := (s.run at_ (pass at_ claimPrefix .portClaim c.ref)).2
      s'.find .port name ≠ none ∧
        (s'.run at_ (pass at_ claimPrefix .portClaim c.ref)).2.writes = s'.writes := by
  intro all
  obtain ⟨c, stored, recorded, claim⟩ := settledClaim_stored (some "spare")
  have backing : c.backingPortName = some "spare" := by
    rw [PortClaim.backingPortName, recorded]
    rfl
  obtain ⟨ok, _, heals⟩ := Reconcile.run_settledAt noon noon "claims" claim backing stored
  obtain ⟨back, _⟩ := all _ c _ _ _ "claims" noon claim stored backing ok
  rcases heals.stored_iff.mp back with there | own
  · exact there rfl
  · exact absurd own (by decide +kernel)

end HostPorts
