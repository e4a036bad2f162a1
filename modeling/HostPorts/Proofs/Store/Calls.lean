import HostPorts.Proofs.Pass.Runs
import HostPorts.Proofs.Store.Lineage

/-!
Calls by any clients in any order: requests, and what users do. Each call leaves all objects alone
or puts one entry, and `Call.Alters` lists these entries. What a client was once given it can tell
from everything stored later by its version, so a write that goes through meets the very object
that the client edited (`no_lost_update`).
-/
namespace HostPorts

inductive Call where
  | request (now : Timestamp) (r : Request)
  | act (a : UserAct)

structure Object.EditOf {k : Kind} (edited o : Object k) : Prop where
  metadata : edited.metadata = { o.metadata with finalizers := edited.metadata.finalizers }
  spec : edited.spec = o.spec

namespace Call

variable {k : Kind} {key : String}

def perform : Call → Store → Store
  | .request now r, s => (s.answer now r).2
  | .act a, s => a.perform s

inductive Fails (s : Store) : Call → Prop where
  | request {now : Timestamp} {r : Request} {e : StoreError}
      (reply : (s.answer now r).1 = .error e) : Fails s (.request now r)
  | insert {k : Kind} {o : Object k} {now : Timestamp} {e : StoreError}
      (reply : (s.insert now o).1 = .error e) : Fails s (.act (.insert k o now))
  | delete {k : Kind} {ref : ObjectRef} {now : Timestamp} {e : StoreError}
      (reply : (s.delete now k ref.key {}).1 = .error e) : Fails s (.act (.delete k ref now))

inductive Gives (s : Store) : Call → {k : Kind} → Object k → Prop where
  | found {k : Kind} {ref : ObjectRef} {o : Object k} {now : Timestamp}
      (reply : (s.answer now (.get k ref)).1 = .ok o) : Gives s (.request now (.get k ref)) o
  | listed {k : Kind} {o : Object k} {os : List (Object k)} {now : Timestamp}
      (reply : (s.answer now (.list k)).1 = .ok os) (among : o ∈ os) :
      Gives s (.request now (.list k)) o
  | pod {ns : String} {p : Pod} {ps : List Pod} {now : Timestamp}
      (reply : (s.answer now (.listPods ns)).1 = .ok ps) (among : p ∈ ps) :
      Gives s (.request now (.listPods ns)) p
  | created {port p : Port} {now : Timestamp}
      (reply : (s.answer now (.createPort port)).1 = .ok p) :
      Gives s (.request now (.createPort port)) p
  | statusWritten {k : Kind} {x o : Object k} {now : Timestamp}
      (reply : (s.answer now (.updateStatus k x)).1 = .ok o) :
      Gives s (.request now (.updateStatus k x)) o
  | finalizersWritten {k : Kind} {x o : Object k} {now : Timestamp}
      (reply : (s.answer now (.updateFinalizers k x)).1 = .ok o) :
      Gives s (.request now (.updateFinalizers k x)) o

inductive Deletes : Call → Kind → String → Prop where
  | user (k : Kind) (ref : ObjectRef) (now : Timestamp) :
      Deletes (.act (.delete k ref now)) k ref.key
  | port (p : Port) (now : Timestamp) : Deletes (.request now (.deletePort p)) .port p.displayName

/-- The entry that a call puts under a key. -/
inductive Alters (s : Store) : Call → (k : Kind) → String → Option (Object k) → Prop where
  | inserted {k : Kind} {o : Object k} {now : Timestamp} (free : s.find k o.key = none) :
      Alters s (.act (.insert k o now)) k o.key (some (o.identified (s.nextIdentity now)))
  | created {port : Port} {now : Timestamp} (free : s.find .port port.key = none) :
      Alters s (.request now (.createPort port)) .port port.key
        (some (port.identified (s.nextIdentity now)))
  | status {k : Kind} {x old : Object k} {now : Timestamp} (found : s.find k x.key = some old)
      (version : old.metadata.resourceVersion = x.metadata.resourceVersion)
      (reply : (s.answer now (.updateStatus k x)).1 = .ok (old.withStatusOf x s.nextVersion)) :
      Alters s (.request now (.updateStatus k x)) k x.key (old.withStatusOf x s.nextVersion).kept
  | finalizers {k : Kind} {x old : Object k} {now : Timestamp} (found : s.find k x.key = some old)
      (version : old.metadata.resourceVersion = x.metadata.resourceVersion)
      (reply : (s.answer now (.updateFinalizers k x)).1 =
        .ok (old.withFinalizersOf x s.nextVersion)) :
      Alters s (.request now (.updateFinalizers k x)) k x.key
        (old.withFinalizersOf x s.nextVersion).kept
  | removed {c : Call} {k : Kind} {key : String} {old : Object k} (deletes : c.Deletes k key)
      (found : s.find k key = some old) (unheld : old.metadata.finalizerList = []) :
      Alters s c k key none
  | marked {c : Call} {k : Kind} {key : String} {old : Object k} {now : Timestamp}
      (deletes : c.Deletes k key) (found : s.find k key = some old)
      (held : old.metadata.finalizerList ≠ []) (live : old.isBeingDeleted = false) :
      Alters s c k key (some (old.marked now s.nextVersion))

theorem perform_cases (c : Call) (s : Store) :
    s.Unchanged (c.perform s) ∨
      ∃ (k : Kind) (key : String) (new : Option (Object k)),
        c.Alters s k key new ∧ s.Puts (c.perform s) k key new := by
  cases c with
  | act a =>
    rcases a.perform_cases s with same | ⟨k, o, now, rfl, free, _, puts⟩ |
      ⟨k, ref, now, old, rfl, found, ⟨unheld, puts⟩ | ⟨held, live, puts⟩⟩
    · exact Or.inl same
    · exact Or.inr ⟨k, _, _, .inserted free, puts⟩
    · exact Or.inr ⟨k, _, _, .removed (.user k ref now) found unheld, puts⟩
    · exact Or.inr ⟨k, _, _, .marked (.user k ref now) found held live, puts⟩
  | request now r =>
    cases r with
    | get | list | listPods => exact Or.inl (.refl s)
    | createPort port =>
      rcases Store.createPort_cases now port s with same | ⟨free, _, puts⟩
      · exact Or.inl same
      · exact Or.inr ⟨.port, _, _, .created free, puts⟩
    | updateStatus k x =>
      rcases Store.updateStatus_outcome x s with
        ⟨_, _, same⟩ | ⟨old, found, version, reply, _, puts⟩
      · exact Or.inl same
      · exact Or.inr ⟨k, _, _, .status found version reply, puts⟩
    | updateFinalizers k x =>
      rcases Store.updateFinalizers_outcome x s with
        ⟨_, _, same⟩ | ⟨old, found, version, reply, _, puts⟩
      · exact Or.inl same
      · exact Or.inr ⟨k, _, _, .finalizers found version reply, puts⟩
    | deletePort p =>
      rcases Store.deletePort_cases now p s with
        same | ⟨old, found, _, _, ⟨unheld, puts⟩ | ⟨held, live, puts⟩⟩
      · exact Or.inl same
      · exact Or.inr ⟨.port, _, _, .removed (.port p now) found unheld, puts⟩
      · exact Or.inr ⟨.port, _, _, .marked (.port p now) found held live, puts⟩

theorem Fails.unchanged {c : Call} {s : Store} (fails : c.Fails s) :
    s.Unchanged (c.perform s) := by
  cases fails with
  | @insert k o now e reply =>
    rcases Store.insert_outcome now o s with ⟨_, failed⟩ | ⟨_, stored, _⟩
    · rw [perform, UserAct.perform, failed]
      exact .refl s
    · rw [stored] at reply
      contradiction
  | @delete k ref now e reply =>
    rcases Store.delete_outcome now k ref.key {} s with ⟨_, failed⟩ | ⟨_, _, _, ok, _⟩
    · rw [perform, UserAct.perform, failed]
      exact .refl s
    · rw [ok] at reply
      contradiction
  | @request now r e reply =>
    cases r with
    | get | list | listPods => exact .refl s
    | createPort port =>
      rcases Store.createPort_outcome now port s with ⟨_, _, same⟩ | ⟨_, stored, _⟩
      · exact same
      · rw [stored] at reply
        contradiction
    | updateStatus k x =>
      rcases Store.updateStatus_outcome x s with ⟨_, _, same⟩ | ⟨_, _, _, written, _⟩
      · exact same
      · cases written.symm.trans reply
    | updateFinalizers k x =>
      rcases Store.updateFinalizers_outcome x s with ⟨_, _, same⟩ | ⟨_, _, _, written, _⟩
      · exact same
      · cases written.symm.trans reply
    | deletePort p =>
      rcases Store.deletePort_outcome now p s with ⟨_, _, same⟩ | ⟨_, _, _, ok, _⟩
      · exact same
      · cases ok.symm.trans reply

end Call

namespace Store

variable {s s' : Store} {k : Kind}

def Becomes : Store → Store → Prop := Relation.ReflTransGen fun s s' => ∃ c : Call, c.perform s = s'

theorem Orderly.call (h : s.Orderly) (c : Call) : (c.perform s).Orderly := by
  cases c with
  | request now r => exact h.answer now r
  | act a => exact h.perform a

theorem evolves_call (c : Call) (s : Store) : s.Evolves (c.perform s) := by
  cases c with
  | request now r => exact evolves_answer now r s
  | act a => exact evolves_perform a s

def VersionsApart (s : Store) : Prop :=
  ∀ k key (o : Object k) k' key' (o' : Object k'), s.find k key = some o →
    s.find k' key' = some o' →
    o.metadata.resourceVersion = o'.metadata.resourceVersion → k = k' ∧ key = key'

theorem VersionsApart.of_puts (h : s.VersionsApart) (orderly : s.Orderly) {key : String}
    {new : Option (Object k)} (puts : s.Puts s' k key new) : s'.VersionsApart := by
  -- what stands there unchanged carries a version given out before the new one
  have older : ∀ k' key' (o' : Object k'), s.find k' key' = some o' →
      o'.metadata.resourceVersion ≠ some s.nextVersion := by
    intro k' key' o' found carries
    obtain ⟨n, le, version⟩ := orderly.versioned k' key' o' found
    rw [version] at carries
    have := versionOf_injective (Option.some.inj carries)
    omega
  have place : ∀ k' key' (o' : Object k'), s'.find k' key' = some o' →
      s.find k' key' = some o' ∨
        o'.metadata.resourceVersion = some s.nextVersion ∧ k' = k ∧ key' = key :=
    puts.entries (fun o eq => Or.inr ⟨(puts.fresh o eq).1, rfl, rfl⟩) fun _ _ _ old => Or.inl old
  intro k₁ key₁ o₁ k₂ key₂ o₂ found₁ found₂ same
  rcases place k₁ key₁ o₁ found₁ with old₁ | ⟨new₁, rfl, rfl⟩ <;>
    rcases place k₂ key₂ o₂ found₂ with old₂ | ⟨new₂, rfl, rfl⟩
  · exact h k₁ key₁ o₁ k₂ key₂ o₂ old₁ old₂ same
  · exact absurd (same.trans new₂) (older k₁ key₁ o₁ old₁)
  · exact absurd (same.symm.trans new₁) (older k₂ key₂ o₂ old₂)
  · exact ⟨rfl, rfl⟩

theorem VersionsApart.call (h : s.VersionsApart) (orderly : s.Orderly) (c : Call) :
    (c.perform s).VersionsApart := by
  rcases c.perform_cases s with same | ⟨k, key, new, _, puts⟩
  · intro k key o k' key' o' found found'
    rw [same.find] at found found'
    exact h k key o k' key' o' found found'
  · exact h.of_puts orderly puts

/-- The version of an object that a client was given stands for that object and for no other. -/
structure Recalls (s : Store) (o : Object k) : Prop where
  version : ∃ n ≤ s.version, o.metadata.resourceVersion = some (versionOf n)
  alone : ∀ key (o' : Object k), s.find k key = some o' →
    o'.metadata.resourceVersion = o.metadata.resourceVersion → o' = o

namespace Recalls

theorem of_find (orderly : s.Orderly) (apart : s.VersionsApart) {key : String} {o : Object k}
    (found : s.find k key = some o) : s.Recalls o := by
  refine ⟨orderly.versioned k key o found, ?_⟩
  intro key' o' found' same
  obtain ⟨_, rfl⟩ := apart k key' o' k key o found' found same
  exact Option.some.inj (found'.symm.trans found)

theorem of_puts_kept (orderly : s.Orderly) {key : String} {o : Object k}
    (puts : s.Puts s' k key (o.withVersion s.nextVersion).kept)
    (advanced : s'.version = s.version + 1) : s'.Recalls (o.withVersion s.nextVersion) := by
  refine ⟨⟨s.version + 1, by omega, rfl⟩, ?_⟩
  intro key' o' found same
  rcases puts.find_same found with ⟨rfl, kept⟩ | ⟨_, old⟩
  · exact Object.eq_of_kept kept
  · obtain ⟨n, le, carries⟩ := orderly.versioned k key' o' old
    rw [carries] at same
    have := versionOf_injective (Option.some.inj same)
    omega

theorem mono {o : Object k} (h : s.Recalls o) (e : s.Evolves s') : s'.Recalls o := by
  obtain ⟨n, le, carries⟩ := h.version
  refine ⟨⟨n, Nat.le_trans le e.version_le, carries⟩, ?_⟩
  intro key o' found same
  rcases e.entry k key o' found with old | ⟨m, above, _, carries'⟩
  · exact h.alone key o' old same
  · rw [carries, carries'] at same
    have := versionOf_injective (Option.some.inj same)
    omega

theorem met {o old : Object k} (h : s.Recalls o) (orderly : s.Orderly) {key : String}
    (found : s.find k key = some old)
    (same : old.metadata.resourceVersion = o.metadata.resourceVersion) : old = o ∧ key = o.key := by
  have is := h.alone key old found same
  exact ⟨is, is ▸ (orderly.keyed k key old found).symm⟩

end Recalls

/-- Each successful write gives out a version, though the object may go with it. -/
theorem update_version {o written : Object k} {write : Object k → Object k}
    (ok : (s.update o write).1 = .ok written) : (s.update o write).2.version = s.version + 1 := by
  unfold update at ok ⊢
  split at ok
  · contradiction
  · rfl

theorem recalls_of_gives {c : Call} {o : Object k} (orderly : s.Orderly) (apart : s.VersionsApart)
    (gives : c.Gives s o) : (c.perform s).Recalls o := by
  cases gives with
  | @found k ref o now reply =>
    change (s.table k).get ref.key = .ok o at reply
    unfold Table.get at reply
    split at reply
    next found =>
      cases reply
      exact .of_find orderly apart found
    · contradiction
  | listed reply among =>
    cases reply
    obtain ⟨key, found⟩ := mem_values.mp among
    exact .of_find orderly apart found
  | pod reply among =>
    cases reply
    obtain ⟨key, found⟩ := mem_values (k := .pod).mp (List.mem_filter.mp among).1
    exact .of_find orderly apart found
  | @created port p now reply =>
    rcases createPort_outcome now port s with ⟨_, failed, _⟩ | ⟨_, stored, _, puts⟩
    · exact nomatch failed.symm.trans reply
    · cases stored.symm.trans reply
      exact .of_find (orderly.call _) (apart.call orderly _) puts.here
  | @statusWritten k x o now reply =>
    rcases updateStatus_outcome x s with ⟨_, failed, _⟩ | ⟨old, _, _, written, _, puts⟩
    · exact nomatch failed.symm.trans reply
    · cases written.symm.trans reply
      refine .of_puts_kept orderly puts ?_
      change (s.updateStatus x).2.version = s.version + 1
      unfold updateStatus at written ⊢
      split at written
      · contradiction
      · next unarmed =>
        rw [if_neg unarmed]
        exact update_version written
  | @finalizersWritten k x o now reply =>
    rcases updateFinalizers_outcome x s with ⟨_, failed, _⟩ | ⟨old, _, _, written, _, puts⟩
    · exact nomatch failed.symm.trans reply
    · cases written.symm.trans reply
      exact .of_puts_kept orderly puts (update_version written)

structure Sound (s : Store) : Prop where
  orderly : s.Orderly
  apart : s.VersionsApart
  held : s.LeavingHeld

namespace Sound

theorem empty : Sound {} := by
  refine ⟨.empty, ?_, .empty⟩
  intro k key o k' key' o' found
  exact absurd found not_find_empty

theorem call (h : s.Sound) (c : Call) : (c.perform s).Sound := by
  refine ⟨h.orderly.call c, h.apart.call h.orderly c, ?_⟩
  cases c with
  | request now r => exact h.held.answer now r
  | act a => exact h.held.perform a

end Sound

theorem Becomes.sound (h : s.Becomes s') (sound : s.Sound) : s'.Sound := by
  induction h with
  | refl => exact sound
  | tail _ last ih =>
    obtain ⟨c, rfl⟩ := last
    exact ih.call c

theorem Becomes.evolves (h : s.Becomes s') : s.Evolves s' := by
  induction h with
  | refl => exact .refl s
  | tail _ last ih =>
    obtain ⟨c, rfl⟩ := last
    exact ih.trans (evolves_call c _)

end Store

namespace Object.EditOf

variable {k : Kind} {edited o : Object k}

theorem key (edit : edited.EditOf o) : edited.key = o.key := by
  rw [Object.key, Object.ref, edit.metadata]
  rfl

theorem resourceVersion (edit : edited.EditOf o) :
    edited.metadata.resourceVersion = o.metadata.resourceVersion := by rw [edit.metadata]

end Object.EditOf

open Store (Becomes Sound)

/-- What a client was given at any moment, and then edited in its status or finalizers, is stored
unchanged whenever a write or deletion with it succeeds; and nothing else changes than what the
call asks for. A call that fails changes no object. -/
theorem no_lost_update {s₀ s : Store} {c : Call} (reachable : Becomes {} s₀)
    (later : (c.perform s₀).Becomes s) (now : Timestamp) :
    (∀ (k : Kind) (o edited : Object k), c.Gives s₀ o → edited.EditOf o →
      (∀ written, (s.answer now (.updateStatus k edited)).1 = .ok written →
        s.find k o.key = some o ∧
          s.Puts (s.answer now (.updateStatus k edited)).2 k o.key
            (o.withStatusOf edited s.nextVersion).kept) ∧
      ∀ written, (s.answer now (.updateFinalizers k edited)).1 = .ok written →
        s.find k o.key = some o ∧
          s.Puts (s.answer now (.updateFinalizers k edited)).2 k o.key
            (o.withFinalizersOf edited s.nextVersion).kept) ∧
    (∀ p edited : Port, c.Gives s₀ p → edited.EditOf p →
      (s.answer now (.deletePort edited)).1 = .ok () →
        s.find .port p.key = some p ∧
          (p.metadata.finalizerList = [] ∧
              s.Puts (s.answer now (.deletePort edited)).2 .port p.key none ∨
            p.metadata.finalizerList ≠ [] ∧ p.isBeingDeleted = false ∧
              s.Puts (s.answer now (.deletePort edited)).2 .port p.key
                (some (p.marked now s.nextVersion)) ∨
            p.metadata.finalizerList ≠ [] ∧ p.isBeingDeleted = true ∧
              s.SameObjects (s.answer now (.deletePort edited)).2)) ∧
    ∀ c' : Call, c'.Fails s → s.SameObjects (c'.perform s) := by
  have sound₀ := reachable.sound .empty
  have sound := later.sound (sound₀.call c)
  have recalls : ∀ {k : Kind} {o : Object k}, c.Gives s₀ o → s.Recalls o := fun gives =>
    (Store.recalls_of_gives sound₀.orderly sound₀.apart gives).mono later.evolves
  refine ⟨?_, ?_, fun c' fails => fails.unchanged.table⟩
  · intro k o edited gives edit
    constructor
    · intro written ok
      rcases Store.updateStatus_outcome edited s with
        ⟨_, failed, _⟩ | ⟨old, found, same, _, _, puts⟩
      · exact nomatch failed.symm.trans ok
      · obtain ⟨rfl, _⟩ := (recalls gives).met sound.orderly found
          (same.trans edit.resourceVersion)
        rw [edit.key] at found puts
        exact ⟨found, puts⟩
    · intro written ok
      rcases Store.updateFinalizers_outcome edited s with
        ⟨_, failed, _⟩ | ⟨old, found, same, _, _, puts⟩
      · exact nomatch failed.symm.trans ok
      · obtain ⟨rfl, _⟩ := (recalls gives).met sound.orderly found
          (same.trans edit.resourceVersion)
        rw [edit.key] at found puts
        exact ⟨found, puts⟩
  · intro p edited gives edit ok
    rcases Store.deletePort_outcome now edited s with
      ⟨_, failed, _⟩ | ⟨old, found, holds, _, _, change⟩
    · exact nomatch failed.symm.trans ok
    · have same : old.metadata.resourceVersion = p.metadata.resourceVersion := by
        obtain ⟨n, _, version⟩ := (recalls gives).version
        rw [edit.resourceVersion, version] at holds
        simp only [Precondition.holds, Option.all_some, Bool.and_eq_true,
          decide_eq_true_eq] at holds
        exact holds.2.trans version.symm
      -- the port is deleted by the name it shows, but that is where it stands
      obtain ⟨rfl, shown⟩ := (recalls gives).met sound.orderly found same
      rw [shown] at found change
      refine ⟨found, ?_⟩
      rcases change with gone | marked | ⟨held, deleted, unchanged⟩
      · exact Or.inl gone
      · exact Or.inr (Or.inl marked)
      · exact Or.inr (Or.inr ⟨held, deleted, unchanged.table⟩)

open Cluster (noon)

def portAlone : Store := Call.perform (.act (.insert .port
  ⟨{ name := some "a", finalizers := some ["audit"] }, ⟨none, "c"⟩, none⟩ noon)) {}

def readPort : Call := .request noon (.get .port ⟨none, "a"⟩)

def podBeside : Store := Call.perform (.act (.insert .pod
  ⟨{ name := some "w", namespace_ := some "t" }, none, none⟩ noon)) (readPort.perform portAlone)

theorem no_lost_update_late :
    ∃ (p edited written : Port), readPort.Gives portAlone p ∧ edited.EditOf p ∧
      (podBeside.answer noon (.updateStatus .port edited)).1 = .ok written ∧
      podBeside.find .port p.key = some p ∧
      Call.Fails (podBeside.answer noon (.updateStatus .port edited)).2
        (.request noon (.updateStatus .port edited)) := by
  have stored : ∃ p ∈ portAlone.find .port "a",
      let edited : Port := { p with status := some ⟨some .settled, 5000, none⟩ }
      (podBeside.answer noon (.updateStatus .port edited)).1.toOption.isSome = true ∧
        ((podBeside.answer noon (.updateStatus .port edited)).2.updateStatus edited).1.toOption =
          none := by decide +kernel
  obtain ⟨p, found, succeeds, late⟩ := stored
  have gives : readPort.Gives portAlone p := by
    have reads : (portAlone.answer noon (.get .port ⟨none, "a"⟩)).1 = .ok p := by
      change (portAlone.table .port).find? "a" = some p at found
      simp only [Store.answer, Table.get, ObjectRef.key, found]
    exact .found reads
  have edit : Object.EditOf (k := .port) { p with status := some ⟨some .settled, 5000, none⟩ } p :=
    ⟨rfl, rfl⟩
  have reachable : Becomes {} portAlone := .single ⟨_, rfl⟩
  have later : (readPort.perform portAlone).Becomes podBeside := .single ⟨_, rfl⟩
  cases reply : (podBeside.answer noon (.updateStatus .port
      { p with status := some ⟨some .settled, 5000, none⟩ })).1 with
  | error e => simp [reply, Except.toOption] at succeeds
  | ok written =>
    refine ⟨p, _, written, gives, edit, reply, ?_, ?_⟩
    · exact (((no_lost_update reachable later noon).1 .port p _ gives edit).1 written reply).1
    · cases second : ((podBeside.answer noon (.updateStatus .port
          { p with status := some ⟨some .settled, 5000, none⟩ })).2.updateStatus
            { p with status := some ⟨some .settled, 5000, none⟩ }).1 with
      | error e => exact .request second
      | ok written' => simp [second, Except.toOption] at late

end HostPorts
