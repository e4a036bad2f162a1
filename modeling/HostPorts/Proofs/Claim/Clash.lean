import HostPorts.Proofs.Pass.Faults

/-!
That a name is taken never ends a pass. Only a creation can be told so, and the one creation that
passes ask for takes a port of that name for its own.
-/
namespace HostPorts

def Request.creates : Request → Bool
  | .createPort _ => true
  | _ => false

/-- Requests may fail with anything, but only a creation with its name being taken. -/
def Request.MayFail (r : Request) (e : StoreError) : Prop :=
  e.isAlreadyExists = true → r.creates = true

def Outcome.Unclashed (outcome : Outcome) : Prop :=
  ∀ e, outcome = .error (.store e) → e.isAlreadyExists = false

def Pass.Unclashed (rest : Pass Outcome) : Prop :=
  rest.Ends (fun r reply => ∀ e, reply = .error e → r.MayFail e) Outcome.Unclashed

theorem Store.answer_mayFail (now : Timestamp) (r : Request) (s : Store) (e : StoreError)
    (failed : (s.answer now r).1 = .error e) : r.MayFail e := by
  have update : ∀ {k : Kind} (o : Object k) write (t : Store),
      (t.update o write).1 = .error e → e.isAlreadyExists = false := by
    intro k o write t failed
    unfold Store.update Table.update at failed
    split at failed
    next e' is =>
      cases failed
      split at is
      · cases is
        rfl
      · split at is
        · cases is
          rfl
        · contradiction
    next => contradiction
  intro taken
  cases r with
  | createPort port => rfl
  | list | listPods => contradiction
  | get k ref =>
    simp only [answer, Table.get] at failed
    split at failed
    · contradiction
    · cases failed
      contradiction
  | updateStatus k o =>
    simp only [answer, updateStatus] at failed
    split at failed
    · cases failed
      contradiction
    · rw [update o _ _ failed] at taken
      contradiction
  | updateFinalizers k o =>
    rw [update o _ _ failed] at taken
    contradiction
  | deletePort port =>
    simp only [answer, deletePort, delete, Table.delete] at failed
    split at failed
    next e' is =>
      cases failed
      split at is
      · cases is
        contradiction
      · split at is
        · cases is
          contradiction
        · split at is
          · contradiction
          · split at is <;> contradiction
    all_goals contradiction

namespace Reconcile

variable {claimPrefix : String}

theorem unclashed_done {o : Outcome} (other : ∀ e, o ≠ .error (.store e)) :
    (Pass.done o).Unclashed :=
  fun e eq => absurd eq (other e)

theorem unclashed_finish : finish.Unclashed := unclashed_done nofun

theorem unclashed_failed {r : Request} {e : StoreError} (noCreation : r.creates = false)
    (possible : r.MayFail e) : (Pass.done (.error (.store e))).Unclashed := by
  intro e' eq
  cases eq
  rw [← Bool.not_eq_true]
  intro taken
  rw [possible taken] at noCreation
  contradiction

theorem unclashed_ask {r : Request} {next : r.Answer → Pass Outcome}
    (noCreation : r.creates = false) (h : ∀ a, (next a).Unclashed) : (ask r next).Unclashed := by
  intro reply can
  cases reply with
  | ok a => exact h a
  | error e => exact unclashed_failed noCreation (can e rfl)

theorem unclashed_find {k : Kind} {ref : ObjectRef} {next : Option (Object k) → Pass Outcome}
    (h : ∀ found, (next found).Unclashed) : (find k ref next).Unclashed := by
  intro reply can
  cases reply with
  | ok o => exact h (some o)
  | error e =>
    simp only
    split
    · exact h none
    · exact unclashed_failed rfl (can e rfl)

theorem unclashed_commit {r : Request} (noCreation : r.creates = false) : (commit r).Unclashed :=
  unclashed_ask noCreation fun _ => unclashed_finish

theorem unclashed_writeStatus {k : Kind} (o : Object k) : (writeStatus o).Unclashed :=
  unclashed_commit rfl

theorem unclashed_release {k : Kind} (o : Object k) : (release o).Unclashed :=
  unclashed_commit rfl

theorem unclashed_checkClaim {r : ClaimReference} {next : Bool → Pass Outcome}
    (h : ∀ isLive, (next isLive).Unclashed) : (checkClaim r next).Unclashed :=
  unclashed_find fun _ => h _

theorem unclashed_ensureBackingPort {c : PortClaim} {next : String → Pass Outcome}
    (h : ∀ name, (next name).Unclashed) : (ensureBackingPort c next).Unclashed := by
  unfold ensureBackingPort
  split
  · exact unclashed_done nofun
  · exact unclashed_done nofun
  · intro reply _
    cases reply with
    | ok port => exact h _
    | error e =>
      simp only
      split
      · exact h _
      next other =>
        intro e' eq
        cases eq
        simpa using other

theorem unclashed_portClass (name : String) : (portClass name).Unclashed := by
  apply unclashed_find
  rintro (_ | c)
  · exact unclashed_finish
  simp only
  split
  · unfold finalizeClass
    split
    · exact unclashed_writeStatus _
    · exact unclashed_finish
    · apply unclashed_ask rfl
      intro pools
      apply unclashed_ask rfl
      intro ports
      split
      · exact unclashed_release c
      · exact unclashed_finish
  · split
    · exact unclashed_writeStatus _
    · exact unclashed_writeStatus _
    · exact unclashed_finish

theorem unclashed_portPool (now : Timestamp) (name : String) :
    (portPool now name).Unclashed := by
  apply unclashed_find
  rintro (_ | p)
  · exact unclashed_finish
  simp only
  split
  · unfold finalizePool
    split
    · exact unclashed_writeStatus _
    · exact unclashed_finish
    · apply unclashed_ask rfl
      intro ports
      split
      · exact unclashed_release p
      · exact unclashed_finish
  · split
    · exact unclashed_writeStatus _
    · unfold checkOverlap
      split
      · exact unclashed_writeStatus _
      · exact unclashed_finish
      · exact unclashed_ask rfl fun _ => unclashed_writeStatus _
      · exact unclashed_writeStatus _
    · exact unclashed_finish

theorem unclashed_portClaim (ns name : String) :
    (portClaim claimPrefix ns name).Unclashed := by
  apply unclashed_find
  rintro (_ | c)
  · exact unclashed_finish
  simp only
  split
  · unfold finalizeClaim
    split
    · exact unclashed_writeStatus _
    · exact unclashed_finish
    · apply unclashed_ask rfl
      intro pods
      split
      · exact unclashed_finish
      · exact unclashed_release c
  · split
    · exact unclashed_writeStatus _
    · exact unclashed_ensureBackingPort fun _ => unclashed_writeStatus _
    · unfold healClaim
      split
      · exact unclashed_done nofun
      · apply unclashed_find
        rintro (_ | p)
        · exact unclashed_ensureBackingPort fun _ => unclashed_finish
        · exact unclashed_finish
    · exact unclashed_finish

theorem unclashed_port (name : String) : (port name).Unclashed := by
  apply unclashed_find
  rintro (_ | p)
  · exact unclashed_finish
  simp only
  split
  · unfold finalizePort
    split
    · exact unclashed_writeStatus _
    · exact unclashed_finish
    · split
      · exact unclashed_release p
      · apply unclashed_checkClaim
        intro isLive
        split
        · exact unclashed_finish
        · exact unclashed_release p
  · split
    · exact unclashed_writeStatus _
    · apply unclashed_ask rfl
      intro _
      apply unclashed_ask rfl
      intro pools
      apply unclashed_ask rfl
      intro ports
      split
      · exact unclashed_done nofun
      · exact unclashed_writeStatus _
    · unfold reclaimPort
      split
      · exact unclashed_finish
      · apply unclashed_checkClaim
        intro isLive
        split
        · exact unclashed_finish
        · exact unclashed_commit rfl
    · exact unclashed_finish

theorem unclashed_pass (now : Timestamp) (k : Kind) (ref : ObjectRef) :
    (pass now claimPrefix k ref).Unclashed := by
  cases k with
  | portClass => exact unclashed_portClass ref.name
  | portPool => exact unclashed_portPool now ref.name
  | portClaim => exact unclashed_portClaim _ ref.name
  | port => exact unclashed_port ref.name
  | pod => exact unclashed_finish

end Reconcile

/-- No pass of a run ends with a name being taken, whatever fails. -/
theorem Cluster.unclashed {allowed : Cluster → UserAct → Prop} {claimPrefix : String} {S : Cluster}
    (reachable : S.FaultyReachable Request.MayFail allowed claimPrefix) :
    ∀ p ∈ S.running, p.rest.Unclashed := by
  apply ends_of_faultyReachable Store.answer_mayFail _ Reconcile.unclashed_pass reachable
  intro r e possible e' eq
  cases eq
  exact possible

end HostPorts
