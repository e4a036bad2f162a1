import HostPorts.Store.Basic

/-!
What each operation of a store does to the stored objects. It either leaves them all as they are
(`Unchanged`) or gives one key of one kind a new entry (`Puts`). Later proofs read stores through
`Store.find` and these two relations, and do not open the tables.
-/
namespace HostPorts

namespace Object

variable {k : Kind}

/-- The entry that a written object leaves in its table: none once it is purged. -/
def kept (o : Object k) : Option (Object k) := if o.isPurged then none else some o

theorem eq_of_kept {o o' : Object k} (h : o.kept = some o') : o' = o := by
  unfold kept at h
  split at h
  · contradiction
  · exact (Option.some.inj h).symm

theorem kept_of_not_deleted {o : Object k} (h : o.isBeingDeleted = false) : o.kept = some o := by
  simp [kept, isPurged, h]

theorem kept_of_held {o : Object k} (h : o.metadata.finalizerList ≠ []) : o.kept = some o := by
  simp [kept, isPurged, h]

theorem kept_cases {o : Object k} (deleted : o.isBeingDeleted = true) :
    (o.kept = some o ∧ o.metadata.finalizerList ≠ []) ∨ o.kept = none := by
  by_cases empty : o.metadata.finalizerList = []
  · exact Or.inr (by simp [kept, isPurged, deleted, empty])
  · exact Or.inl ⟨kept_of_held empty, empty⟩

theorem kept_or_unheld (o : Object k) :
    o.kept = some o ∨ o.kept = none ∧ o.metadata.finalizerList = [] := by
  unfold kept
  split
  next purged => exact Or.inr ⟨rfl, List.isEmpty_iff.mp (Bool.and_eq_true_iff.mp purged).2⟩
  next => exact Or.inl rfl

def marked (o : Object k) (now : Timestamp) (version : String) : Object k :=
  { o with
    metadata := { o.metadata with
      deletionTimestamp := some now
      resourceVersion := some version } }

def withStatusOf (current o : Object k) (version : String) : Object k :=
  ({ current with status := o.status } : Object k).withVersion version

def withFinalizersOf (current o : Object k) (version : String) : Object k :=
  ({ current with
    metadata := { current.metadata with finalizers := o.metadata.finalizers } } :
      Object k).withVersion version

theorem withPhase_only (o : Object k) (phase : Phase) :
    o.withPhase phase = { o with status := (o.withPhase phase).status } := by cases k <;> rfl

theorem withPhase_metadata (o : Object k) (phase : Phase) :
    (o.withPhase phase).metadata = o.metadata := by rw [withPhase_only]

theorem phase_withPhase (controlled : k ≠ .pod) (o : Object k) (phase : Phase) :
    (o.withPhase phase).phase = some phase := by
  cases k <;> first | rfl | contradiction

theorem held_of_isProtected {o : Object k} (h : o.isProtected = true) :
    o.metadata.finalizerList ≠ [] := by
  intro empty
  obtain ⟨token, _, held⟩ := (Option.any_eq_true ..).mp h
  simp [ProtectionToken.isHeldBy, empty] at held

theorem released_only (o : Object k) :
    o.released =
      { o with metadata := { o.metadata with finalizers := o.released.metadata.finalizers } } := by
  unfold released
  cases k.token? with
  | none => rfl
  | some token =>
    unfold ProtectionToken.release
    cases o with
    | mk metadata spec status => cases metadata.finalizers <;> rfl

/-- The same object at another version: who it is and what it asks for are as they were. -/
structure Succeeds (new old : Object k) : Prop where
  name : new.metadata.name = old.metadata.name
  namespace_ : new.metadata.namespace_ = old.metadata.namespace_
  uid : new.metadata.uid = old.metadata.uid
  spec : new.spec = old.spec

theorem Succeeds.refl (o : Object k) : o.Succeeds o := ⟨rfl, rfl, rfl, rfl⟩

theorem Succeeds.trans {new mid old : Object k} (h : new.Succeeds mid) (h' : mid.Succeeds old) :
    new.Succeeds old :=
  ⟨h.name.trans h'.name, h.namespace_.trans h'.namespace_, h.uid.trans h'.uid,
    h.spec.trans h'.spec⟩

theorem marked_succeeds (o : Object k) (now : Timestamp) (version : String) :
    (o.marked now version).Succeeds o := ⟨rfl, rfl, rfl, rfl⟩

theorem withStatus_succeeds (o : Object k) (status : Option k.Status) (version : String) :
    (Object.withVersion { o with status := status } version).Succeeds o := ⟨rfl, rfl, rfl, rfl⟩

theorem withPhase_succeeds (o : Object k) (phase : Phase) (version : String) :
    ((o.withPhase phase).withVersion version).Succeeds o := by
  rw [o.withPhase_only]
  exact o.withStatus_succeeds _ version

theorem released_succeeds (o : Object k) (version : String) :
    (o.released.withVersion version).Succeeds o := by
  rw [o.released_only]
  exact ⟨rfl, rfl, rfl, rfl⟩

theorem released_status (o : Object k) : o.released.status = o.status := by rw [o.released_only]

end Object

theorem PortClaim.boundPortName_withPhase (c : PortClaim) (phase : Phase) :
    boundPortName (c.withPhase phase) = boundPortName c := by
  cases c with
  | mk metadata spec status => cases status <;> rfl

theorem Port.number_withPhase (p : Port) (phase : Phase) :
    number (p.withPhase phase) = number p := by
  cases p with
  | mk metadata spec status => cases status <;> rfl

theorem Port.poolName_withPhase (p : Port) (phase : Phase) :
    poolName (p.withPhase phase) = poolName p := by
  cases p with
  | mk metadata spec status => cases status <;> rfl

theorem portNameForClaim_injective {uid uid' : String}
    (same : portNameForClaim uid = portNameForClaim uid') : uid = uid' := by
  have lists := congrArg String.toList same
  simp only [portNameForClaim, String.toList_append] at lists
  exact String.toList_inj.mp (List.append_cancel_left lists)

namespace Store

theorem versionOf_injective {m n : Nat} (h : versionOf m = versionOf n) : m = n := by
  simp only [versionOf, Nat.toString_eq_ofList_toDigits, String.ofList_inj] at h
  have same := congrArg (fun digits => Nat.ofDigitChars 10 digits 0) h
  simpa only [Nat.ofDigitChars_ten_toDigits] using same

theorem uidOf_injective {m n : Nat} (h : uidOf m = uidOf n) : m = n := by
  unfold uidOf at h
  generalize "00000000-0000-4000-8000-" = frame at h
  have lists := congrArg String.toList h
  simp only [String.toList_append, String.toList_ofList] at lists
  have digits := List.append_cancel_left lists
  have same := congrArg (fun cs => Nat.ofDigitChars 10 cs 0) digits
  -- the zeros in front do not count
  simpa only [Nat.ofDigitChars_append, Nat.ofDigitChars_replicate_zero, Nat.mul_zero,
    Nat.ofDigitChars_ten_toDigits] using same

variable {s s' : Store} {k : Kind}

def find (s : Store) (k : Kind) (key : String) : Option (Object k) := (s.table k).find? key

theorem not_find_empty {key : String} {o : Object k} : find {} k key ≠ some o := by
  cases k <;> exact nofun

theorem mem_values {o : Object k} : o ∈ (s.table k).values ↔ ∃ key, s.find k key = some o :=
  SortedMap.mem_values

def SameObjects (s s' : Store) : Prop := ∀ k, s'.table k = s.table k

instance (s s' : Store) : Decidable (s.SameObjects s') :=
  decidable_of_decidable_of_iff
    (p := s'.classes = s.classes ∧ s'.pools = s.pools ∧ s'.claims = s.claims ∧
      s'.ports = s.ports ∧ s'.pods = s.pods)
    ⟨fun ⟨classes, pools, claims, ports, pods⟩ k => by cases k <;> assumption,
      fun h => ⟨h .portClass, h .portPool, h .portClaim, h .port, h .pod⟩⟩

theorem SameObjects.find {s s' : Store} (same : s.SameObjects s') (k : Kind) (key : String) :
    s'.find k key = s.find k key := by
  rw [Store.find, same k, Store.find]

/-- The same objects; what is counted of writes and armed failures may differ. -/
structure Unchanged (s s' : Store) : Prop where
  table : ∀ k, s'.table k = s.table k
  version : s'.version = s.version
  created : s'.created = s.created

/-- One entry is new or gone, and no other differs. -/
structure Puts (s s' : Store) (k : Kind) (key : String) (new : Option (Object k)) : Prop where
  here : s'.find k key = new
  beside : ∀ key', key' ≠ key → s'.find k key' = s.find k key'
  other : ∀ k', k' ≠ k → s'.table k' = s.table k'
  version_le : s.version ≤ s'.version
  created_le : s.created ≤ s'.created
  /-- A new entry carries the next version. -/
  fresh : ∀ o, new = some o →
    o.metadata.resourceVersion = some s.nextVersion ∧ s'.version = s.version + 1

namespace Unchanged

theorem refl (s : Store) : Unchanged s s := ⟨fun _ => rfl, rfl, rfl⟩

theorem find (h : Unchanged s s') (k : Kind) (key : String) : s'.find k key = s.find k key := by
  simp only [Store.find, h.table k]

end Unchanged

namespace Puts

variable {key : String} {new : Option (Object k)}

theorem find_other (h : Puts s s' k key new) {k' : Kind} (ne : k' ≠ k) (key' : String) :
    s'.find k' key' = s.find k' key' := by
  simp only [Store.find, h.other k' ne]

theorem find_same (h : Puts s s' k key new) {key' : String} {o : Object k}
    (found : s'.find k key' = some o) :
    (key' = key ∧ new = some o) ∨ (key' ≠ key ∧ s.find k key' = some o) := by
  by_cases same : key' = key
  · subst same
    exact Or.inl ⟨rfl, h.here.symm.trans found⟩
  · exact Or.inr ⟨same, (h.beside key' same).symm.trans found⟩

theorem entries (h : Puts s s' k key new) {P : (k' : Kind) → String → Object k' → Prop}
    (heir : ∀ o, new = some o → P k key o)
    (old : ∀ k' key' (o : Object k'), s.find k' key' = some o → P k' key' o) :
    ∀ k' key' (o : Object k'), s'.find k' key' = some o → P k' key' o := by
  intro k' key' o found
  by_cases kinds : k' = k
  · subst kinds
    rcases h.find_same found with ⟨rfl, eq⟩ | ⟨_, before⟩
    · exact heir o eq
    · exact old k' key' o before
  · exact old k' key' o ((h.find_other kinds key').symm.trans found)

theorem adds (h : Puts s s' k key new) (free : s.find k key = none) :
    ∀ k' key' (o : Object k'), s.find k' key' = some o → s'.find k' key' = some o := by
  intro k' key' o found
  by_cases kinds : k' = k
  · subst kinds
    have keys : key' ≠ key := by
      rintro rfl
      rw [free] at found
      contradiction
    exact (h.beside key' keys).trans found
  · exact (h.find_other kinds key').trans found

theorem find_cases (h : Puts s s' k key new) :
    ∀ k' key' (o : Object k'), s'.find k' key' = some o → s.find k' key' = some o ∨
      (o.metadata.resourceVersion = some s.nextVersion ∧ s'.version = s.version + 1) :=
  h.entries (fun o eq => Or.inr (h.fresh o eq)) fun _ _ _ before => Or.inl before

end Puts

theorem withTable_version (s : Store) (k : Kind) (t : Table k) :
    (s.withTable k t).version = s.version := by cases k <;> rfl

theorem withTable_created (s : Store) (k : Kind) (t : Table k) :
    (s.withTable k t).created = s.created := by cases k <;> rfl

theorem puts_insert {key : String} {o : Object k}
    (table : s'.table = (s.withTable k ((s.table k).insert key o)).table)
    (version : s'.version = s.version + 1) (created : s.created ≤ s'.created)
    (carries : o.metadata.resourceVersion = some s.nextVersion) : Puts s s' k key (some o) where
  here := by simp [find, table]
  beside key' ne := by simp [find, table, ne]
  other k' ne := by rw [table, table_withTable_ne _ _ ne]
  version_le := by omega
  created_le := created
  fresh o' eq := by
    cases eq
    exact ⟨carries, version⟩

theorem puts_erase {key : String}
    (table : s'.table = (s.withTable k ((s.table k).erase key)).table)
    (version : s.version ≤ s'.version) (created : s.created ≤ s'.created) :
    Puts s s' k key none where
  here := by simp [find, table]
  beside key' ne := by simp [find, table, ne]
  other k' ne := by rw [table, table_withTable_ne _ _ ne]
  version_le := version
  created_le := created
  fresh o' eq := by contradiction

theorem insert_outcome (now : Timestamp) (o : Object k) (s : Store) :
    (∃ e, s.insert now o = (.error e, s)) ∨
      (s.find k o.key = none ∧
        (s.insert now o).1 = .ok (o.identified (s.nextIdentity now)) ∧
        (s.insert now o).2.created = s.created + 1 ∧
        Puts s (s.insert now o).2 k o.key (some (o.identified (s.nextIdentity now)))) := by
  unfold insert Table.create
  cases free : (s.table k).find? o.key with
  | some taken => exact Or.inl ⟨_, rfl⟩
  | none =>
    refine Or.inr ⟨free, rfl, rfl, puts_insert ?_ rfl (Nat.le_succ _) rfl⟩
    funext k'
    cases k' <;> rfl

theorem insert_cases (now : Timestamp) (o : Object k) (s : Store) :
    (s.insert now o).2 = s ∨
      (s.find k o.key = none ∧ (s.insert now o).2.created = s.created + 1 ∧
        Puts s (s.insert now o).2 k o.key (some (o.identified (s.nextIdentity now)))) := by
  rcases insert_outcome now o s with ⟨_, failed⟩ | ⟨free, _, created, puts⟩
  · exact Or.inl (by rw [failed])
  · exact Or.inr ⟨free, created, puts⟩

/-- Deletion fails, or it removes an object without finalizers, marks one that has some, or finds
it already marked. -/
theorem delete_outcome (now : Timestamp) (k : Kind) (key : String) (p : Precondition) (s : Store) :
    (∃ e, s.delete now k key p = (.error e, s)) ∨
      ∃ old, s.find k key = some old ∧ p.holds old ∧ (s.delete now k key p).1 = .ok () ∧
        (s.delete now k key p).2.created = s.created ∧
        ((old.metadata.finalizerList = [] ∧ Puts s (s.delete now k key p).2 k key none) ∨
          (old.metadata.finalizerList ≠ [] ∧ old.isBeingDeleted = false ∧
            Puts s (s.delete now k key p).2 k key (some (old.marked now s.nextVersion))) ∨
          (old.metadata.finalizerList ≠ [] ∧ old.isBeingDeleted = true ∧
            (s.delete now k key p).2 = s)) := by
  unfold delete Table.delete
  cases found : (s.table k).find? key with
  | none => exact Or.inl ⟨_, rfl⟩
  | some old =>
    by_cases holds : p.holds old
    · by_cases empty : old.metadata.finalizerList = []
      · simp only [holds, empty, Bool.not_true, Bool.false_eq_true, if_false, List.isEmpty_nil,
          if_true]
        refine Or.inr ⟨old, found, holds, trivial, withTable_created .., Or.inl ⟨empty, ?_⟩⟩
        apply puts_erase rfl
        · exact Nat.le_of_eq (withTable_version ..).symm
        · exact Nat.le_of_eq (withTable_created ..).symm
      · have held : old.metadata.finalizerList.isEmpty = false := by simpa using empty
        cases deleted : old.isBeingDeleted with
        | true =>
          simp only [holds, held, deleted, Bool.not_true, Bool.false_eq_true, if_false, if_true]
          exact Or.inr ⟨old, found, holds, trivial, trivial,
            Or.inr (Or.inr ⟨empty, deleted, trivial⟩)⟩
        | false =>
          simp only [holds, held, deleted, Bool.not_true, Bool.false_eq_true, if_false]
          refine Or.inr ⟨old, found, holds, trivial, withTable_created ..,
            Or.inr (Or.inl ⟨empty, deleted, ?_⟩)⟩
          refine puts_insert ?_ rfl (Nat.le_of_eq (withTable_created ..).symm) rfl
          funext k'
          cases k <;> cases k' <;> rfl
    · simp [holds]

theorem delete_cases (now : Timestamp) (k : Kind) (key : String) (p : Precondition) (s : Store) :
    (s.delete now k key p).2 = s ∨
      ∃ old, s.find k key = some old ∧ p.holds old ∧ (s.delete now k key p).2.created = s.created ∧
        ((old.metadata.finalizerList = [] ∧ Puts s (s.delete now k key p).2 k key none) ∨
          (old.metadata.finalizerList ≠ [] ∧ old.isBeingDeleted = false ∧
            Puts s (s.delete now k key p).2 k key (some (old.marked now s.nextVersion)))) := by
  rcases delete_outcome now k key p s with
    ⟨_, failed⟩ | ⟨old, found, holds, _, created, gone | marked | ⟨_, _, same⟩⟩
  · exact Or.inl (by rw [failed])
  · exact Or.inr ⟨old, found, holds, created, Or.inl gone⟩
  · exact Or.inr ⟨old, found, holds, created, Or.inr marked⟩
  · exact Or.inl same

theorem delete_marks {key : String} {old : Object k} (now : Timestamp)
    (found : s.find k key = some old) (held : old.metadata.finalizerList ≠ [])
    (live : old.isBeingDeleted = false) :
    (s.delete now k key {}).2.failNextStatusWrite = s.failNextStatusWrite ∧
      Puts s (s.delete now k key {}).2 k key (some (old.marked now s.nextVersion)) := by
  change (s.table k).find? key = some old at found
  have holds : Precondition.holds {} old = true := rfl
  have held' : old.metadata.finalizerList.isEmpty = false := by simpa using held
  unfold delete Table.delete
  simp only [found, holds, held', live, Bool.not_true, Bool.false_eq_true, if_false]
  refine ⟨by cases k <;> rfl, ?_⟩
  refine puts_insert ?_ rfl (Nat.le_of_eq (withTable_created ..).symm) rfl
  funext k'
  cases k <;> cases k' <;> rfl

theorem update_puts {o old : Object k} (write : Object k → Object k)
    (found : s.find k o.key = some old)
    (same : old.metadata.resourceVersion = o.metadata.resourceVersion) :
    (s.update o write).2.created = s.created ∧
      Puts s (s.update o write).2 k o.key ((write old).withVersion s.nextVersion).kept := by
  change (s.table k).find? o.key = some old at found
  unfold update Table.update
  simp only [found, same, ne_eq, not_true_eq_false, if_false]
  refine ⟨withTable_created .., ?_⟩
  by_cases purged : ((write old).withVersion s.nextVersion).isPurged
  · simp only [Object.kept, purged, if_true]
    refine puts_erase ?_ (Nat.le_succ _) (Nat.le_of_eq (withTable_created ..).symm)
    funext k'
    cases k <;> cases k' <;> rfl
  · simp only [Object.kept, purged]
    refine puts_insert ?_ rfl (Nat.le_of_eq (withTable_created ..).symm) rfl
    funext k'
    cases k <;> cases k' <;> rfl

theorem update_outcome (o : Object k) (write : Object k → Object k) (s : Store) :
    (∃ e, s.update o write = (.error e, s)) ∨
      ∃ old, s.find k o.key = some old ∧
        old.metadata.resourceVersion = o.metadata.resourceVersion ∧
        (s.update o write).1 = .ok ((write old).withVersion s.nextVersion) ∧
        (s.update o write).2.created = s.created ∧
        Puts s (s.update o write).2 k o.key ((write old).withVersion s.nextVersion).kept := by
  cases found : s.find k o.key with
  | none =>
    change (s.table k).find? o.key = none at found
    refine Or.inl ⟨.notFound k o.key, ?_⟩
    simp only [update, Table.update, found]
  | some old =>
    by_cases same : old.metadata.resourceVersion = o.metadata.resourceVersion
    · refine Or.inr ⟨old, rfl, same, ?_, update_puts write found same⟩
      change (s.table k).find? o.key = some old at found
      simp only [update, Table.update, found, same, ne_eq, not_true_eq_false, if_false]
    · change (s.table k).find? o.key = some old at found
      refine Or.inl ⟨.conflict k o.key, ?_⟩
      simp only [update, Table.update, found, same, ne_eq, not_false_eq_true, if_true]

theorem unchanged_countWrite (s : Store) : Unchanged s s.countWrite :=
  ⟨fun k => by cases k <;> rfl, rfl, rfl⟩

theorem Unchanged.puts {t : Store} {key : String} {new : Option (Object k)} (h : Unchanged s t)
    (p : Puts t s' k key new) : Puts s s' k key new where
  here := p.here
  beside key' ne := (p.beside key' ne).trans (h.find k key')
  other k' ne := (p.other k' ne).trans (h.table k')
  version_le := by
    have := p.version_le
    have := h.version
    omega
  created_le := by
    have := p.created_le
    have := h.created
    omega
  fresh o eq := by
    have carries := p.fresh o eq
    rwa [nextVersion, h.version] at carries

theorem updateStatus_outcome (o : Object k) (s : Store) :
    (∃ e, (s.updateStatus o).1 = .error e ∧ Unchanged s (s.updateStatus o).2) ∨
      ∃ old, s.find k o.key = some old ∧
        old.metadata.resourceVersion = o.metadata.resourceVersion ∧
        (s.updateStatus o).1 = .ok (old.withStatusOf o s.nextVersion) ∧
        (s.updateStatus o).2.created = s.created ∧
        Puts s (s.updateStatus o).2 k o.key (old.withStatusOf o s.nextVersion).kept := by
  unfold updateStatus
  split
  · exact Or.inl ⟨_, rfl, fun k => by cases k <;> rfl, rfl, rfl⟩
  · rcases update_outcome o (fun current => { current with status := o.status }) s.countWrite with
      ⟨e, failed⟩ | ⟨old, found, same, written, created, puts⟩
    · rw [failed]
      exact Or.inl ⟨e, rfl, unchanged_countWrite s⟩
    · rw [(unchanged_countWrite s).find] at found
      exact Or.inr ⟨old, found, same, written, created, (unchanged_countWrite s).puts puts⟩

theorem updateStatus_cases (o : Object k) (s : Store) :
    Unchanged s (s.updateStatus o).2 ∨
      ∃ old, s.find k o.key = some old ∧
        old.metadata.resourceVersion = o.metadata.resourceVersion ∧
        (s.updateStatus o).2.created = s.created ∧
        Puts s (s.updateStatus o).2 k o.key (old.withStatusOf o s.nextVersion).kept := by
  rcases updateStatus_outcome o s with ⟨_, _, same⟩ | ⟨old, found, version, _, effect⟩
  · exact Or.inl same
  · exact Or.inr ⟨old, found, version, effect⟩

theorem update_armed (o : Object k) (write : Object k → Object k) (s : Store) :
    (s.update o write).2.failNextStatusWrite = s.failNextStatusWrite := by
  unfold update
  split
  · rfl
  · cases k <;> rfl

theorem updateStatus_puts {o old : Object k} (unarmed : s.failNextStatusWrite = false)
    (found : s.find k o.key = some old)
    (same : old.metadata.resourceVersion = o.metadata.resourceVersion) :
    (s.updateStatus o).2.failNextStatusWrite = false ∧
      Puts s (s.updateStatus o).2 k o.key (old.withStatusOf o s.nextVersion).kept := by
  unfold updateStatus
  simp only [unarmed, Bool.false_eq_true, if_false]
  rw [← (unchanged_countWrite s).find] at found
  refine ⟨(update_armed ..).trans unarmed, ?_⟩
  exact (unchanged_countWrite s).puts (update_puts _ found same).2

theorem updateFinalizers_puts {o old : Object k} (found : s.find k o.key = some old)
    (same : old.metadata.resourceVersion = o.metadata.resourceVersion) :
    (s.updateFinalizers o).2.failNextStatusWrite = s.failNextStatusWrite ∧
      Puts s (s.updateFinalizers o).2 k o.key (old.withFinalizersOf o s.nextVersion).kept := by
  unfold updateFinalizers
  rw [← (unchanged_countWrite s).find] at found
  refine ⟨update_armed .., ?_⟩
  exact (unchanged_countWrite s).puts (update_puts _ found same).2

theorem updateFinalizers_outcome (o : Object k) (s : Store) :
    (∃ e, (s.updateFinalizers o).1 = .error e ∧ Unchanged s (s.updateFinalizers o).2) ∨
      ∃ old, s.find k o.key = some old ∧
        old.metadata.resourceVersion = o.metadata.resourceVersion ∧
        (s.updateFinalizers o).1 = .ok (old.withFinalizersOf o s.nextVersion) ∧
        (s.updateFinalizers o).2.created = s.created ∧
        Puts s (s.updateFinalizers o).2 k o.key (old.withFinalizersOf o s.nextVersion).kept := by
  unfold updateFinalizers
  rcases update_outcome o
      (fun current => { current with
        metadata := { current.metadata with finalizers := o.metadata.finalizers } })
      s.countWrite with
    ⟨e, failed⟩ | ⟨old, found, same, written, created, puts⟩
  · rw [failed]
    exact Or.inl ⟨e, rfl, unchanged_countWrite s⟩
  · rw [(unchanged_countWrite s).find] at found
    exact Or.inr ⟨old, found, same, written, created, (unchanged_countWrite s).puts puts⟩

theorem updateFinalizers_cases (o : Object k) (s : Store) :
    Unchanged s (s.updateFinalizers o).2 ∨
      ∃ old, s.find k o.key = some old ∧
        old.metadata.resourceVersion = o.metadata.resourceVersion ∧
        (s.updateFinalizers o).2.created = s.created ∧
        Puts s (s.updateFinalizers o).2 k o.key (old.withFinalizersOf o s.nextVersion).kept := by
  rcases updateFinalizers_outcome o s with ⟨_, _, same⟩ | ⟨old, found, version, _, effect⟩
  · exact Or.inl same
  · exact Or.inr ⟨old, found, version, effect⟩

theorem createPort_outcome (now : Timestamp) (port : Port) (s : Store) :
    (∃ e, (answer now (.createPort port) s).1 = .error e ∧
        Unchanged s (answer now (.createPort port) s).2) ∨
      (s.find .port port.key = none ∧
        (answer now (.createPort port) s).1 = .ok (port.identified (s.nextIdentity now)) ∧
        (answer now (.createPort port) s).2.created = s.created + 1 ∧
        Puts s (answer now (.createPort port) s).2 .port port.key
          (some (port.identified (s.nextIdentity now)))) := by
  rcases insert_outcome now port s.countWrite with ⟨e, failed⟩ | ⟨free, stored, created, puts⟩
  · simp only [answer, failed]
    exact Or.inl ⟨e, rfl, unchanged_countWrite s⟩
  · rw [(unchanged_countWrite s).find] at free
    exact Or.inr ⟨free, stored, created, (unchanged_countWrite s).puts puts⟩

theorem createPort_cases (now : Timestamp) (port : Port) (s : Store) :
    Unchanged s (answer now (.createPort port) s).2 ∨
      (s.find .port port.key = none ∧
        (answer now (.createPort port) s).2.created = s.created + 1 ∧
        Puts s (answer now (.createPort port) s).2 .port port.key
          (some (port.identified (s.nextIdentity now)))) := by
  rcases createPort_outcome now port s with ⟨_, _, same⟩ | ⟨free, _, effect⟩
  · exact Or.inl same
  · exact Or.inr ⟨free, effect⟩

theorem deletePort_outcome (now : Timestamp) (port : Port) (s : Store) :
    (∃ e, (s.deletePort now port).1 = .error e ∧ Unchanged s (s.deletePort now port).2) ∨
      ∃ old, s.find .port port.displayName = some old ∧
        Precondition.holds ⟨port.metadata.uid, port.metadata.resourceVersion⟩ old ∧
        (s.deletePort now port).1 = .ok () ∧
        (s.deletePort now port).2.created = s.created ∧
        ((old.metadata.finalizerList = [] ∧
            Puts s (s.deletePort now port).2 .port port.displayName none) ∨
          (old.metadata.finalizerList ≠ [] ∧ old.isBeingDeleted = false ∧
            Puts s (s.deletePort now port).2 .port port.displayName
              (some (old.marked now s.nextVersion))) ∨
          (old.metadata.finalizerList ≠ [] ∧ old.isBeingDeleted = true ∧
            Unchanged s (s.deletePort now port).2)) := by
  have counted := unchanged_countWrite s
  unfold deletePort
  rcases delete_outcome now .port port.displayName
      ⟨port.metadata.uid, port.metadata.resourceVersion⟩ s.countWrite with
    ⟨e, failed⟩ | ⟨old, found, holds, ok, created, change⟩
  · rw [failed]
    exact Or.inl ⟨e, rfl, counted⟩
  · rw [counted.find] at found
    refine Or.inr ⟨old, found, holds, ok, created, ?_⟩
    rcases change with ⟨empty, puts⟩ | ⟨held, live, puts⟩ | ⟨held, deleted, same⟩
    · exact Or.inl ⟨empty, counted.puts puts⟩
    · exact Or.inr (Or.inl ⟨held, live, counted.puts puts⟩)
    · rw [same]
      exact Or.inr (Or.inr ⟨held, deleted, counted⟩)

theorem deletePort_cases (now : Timestamp) (port : Port) (s : Store) :
    Unchanged s (s.deletePort now port).2 ∨
      ∃ old, s.find .port port.displayName = some old ∧
        Precondition.holds ⟨port.metadata.uid, port.metadata.resourceVersion⟩ old ∧
        (s.deletePort now port).2.created = s.created ∧
        ((old.metadata.finalizerList = [] ∧
            Puts s (s.deletePort now port).2 .port port.displayName none) ∨
          (old.metadata.finalizerList ≠ [] ∧ old.isBeingDeleted = false ∧
            Puts s (s.deletePort now port).2 .port port.displayName
              (some (old.marked now s.nextVersion)))) := by
  rcases deletePort_outcome now port s with
    ⟨_, _, same⟩ | ⟨old, found, holds, _, created, gone | marked | ⟨_, _, same⟩⟩
  · exact Or.inl same
  · exact Or.inr ⟨old, found, holds, created, Or.inl gone⟩
  · exact Or.inr ⟨old, found, holds, created, Or.inr marked⟩
  · exact Or.inl same

end Store

namespace Request

def isRead : Request → Bool
  | .get .. | .list .. | .listPods .. => true
  | _ => false

end Request

namespace Store

theorem answer_of_isRead {r : Request} (h : r.isRead = true) (now : Timestamp) (s : Store) :
    (answer now r s).2 = s := by
  cases r <;> first | rfl | contradiction

theorem find_of_get {s : Store} {k : Kind} {key : String} {o : Object k}
    (told : (s.table k).get key = .ok o) : s.find k key = some o := by
  unfold Table.get at told
  split at told
  next stored =>
    cases told
    exact stored
  · contradiction

end Store
end HostPorts
