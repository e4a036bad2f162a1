import HostPorts.Proofs.Pass.Deeds
import HostPorts.Proofs.Pass.Undisturbed

/-!
What is due for an object. A pass that nobody disturbs first reads and then does at most one thing,
which the stored objects settle: it rests, writes a status, releases the token, makes sure of a
backing port or deletes an orphan. `Due` lists these with all their guards, for any store whatever,
and `comes_to_due` says that a pass comes to what is due; so theorems about whole passes are case
analyses over what is due.
-/
namespace HostPorts

def Store.HasDependent (s : Store) (claimPrefix : String) : {k : Kind} → Object k → Prop
  | .portClass, c =>
    (∃ (key : String) (p : PortPool), s.find .portPool key = some p ∧
        p.spec.classRef = c.metadata.name.getD "") ∨
      ∃ (key : String) (p : Port), s.find .port key = some p ∧
        p.spec.classRef = c.metadata.name.getD ""
  | .portPool, p => ∃ (key : String) (q : Port), s.find .port key = some q ∧
    q.poolName = some p.displayName ∧ q.number ≠ 0
  | .portClaim, c => ∃ (key : String) (pod : Pod), s.find .pod key = some pod ∧
    pod.metadata.namespace_ = some (c.metadata.namespace_.getD "") ∧
      PortClaim.isUsedBy c.displayName claimPrefix pod = true
  | .port, p => ∃ r, p.spec.claimRef = some r ∧ s.hasClaim r = true
  | .pod, _ => False

namespace Reconcile

def subject (k : Kind) (ref : ObjectRef) : ObjectRef :=
  ⟨if k.isNamespaced then some (ref.namespace_.getD "") else none, ref.name⟩

/-- Why there is nothing to do for an object, or nothing that can be done. -/
inductive Idle (claimPrefix : String) (s : Store) : {k : Kind} → Object k → Outcome → Prop where
  | released {k : Kind} {o : Object k} (deleted : o.isBeingDeleted = true)
      (marked : o.phase = some .deleting) (free : o.isProtected = false) :
      Idle claimPrefix s o (.ok ())
  | needed {k : Kind} {o : Object k} (deleted : o.isBeingDeleted = true)
      (marked : o.phase = some .deleting) (dependent : s.HasDependent claimPrefix o) :
      Idle claimPrefix s o (.ok ())
  | settled {k : Kind} {o : Object k} (kinds : k = .portClass ∨ k = .portPool)
      (live : o.isBeingDeleted = false) (settled : o.phase = some .settled) :
      Idle claimPrefix s o (.ok ())
  | overlapping {p : PortPool} (live : p.isBeingDeleted = false)
      (waiting : p.phase = some .pending) (failed : p.overlapStatus = some .false_) :
      Idle claimPrefix s p (.ok ())
  | backed {c : PortClaim} {name : String} (live : c.isBeingDeleted = false)
      (settled : c.phase = some .settled) (backing : c.backingPortName = some name)
      (stored : s.find .port name ≠ none) : Idle claimPrefix s c (.ok ())
  | incomplete {c : PortClaim} {field : String} (live : c.isBeingDeleted = false)
      (phase : c.phase = some .pending ∨ c.phase = some .settled)
      (missing : c.metadata.namespace_ = none ∨ c.metadata.uid = none) :
      Idle claimPrefix s c (.error (.missingField c.displayName field))
  | classless {p : Port} (live : p.isBeingDeleted = false) (waiting : p.phase = some .pending)
      (absent : s.find .portClass p.spec.classRef = none) :
      Idle claimPrefix s p (.error (.store (.notFound .portClass p.spec.classRef)))
  | unserved {p : Port} {e : AllocationError} (live : p.isBeingDeleted = false)
      (waiting : p.phase = some .pending) (served : s.find .portClass p.spec.classRef ≠ none)
      (failed : p.allocation s.pools.values s.ports.values = .error e) :
      Idle claimPrefix s p (.error (.allocation e))
  | owned {p : Port} (live : p.isBeingDeleted = false) (settled : p.phase = some .settled)
      (owner : ∀ r, p.spec.claimRef = some r → s.hasClaim r = true) : Idle claimPrefix s p (.ok ())
  /-- Recorded as leaving, though nobody asked for that. -/
  | misplaced {k : Kind} {o : Object k} (controlled : k ≠ .pod) (live : o.isBeingDeleted = false)
      (leaving : o.phase = some .deleting) : Idle claimPrefix s o (.ok ())

inductive StatusWrite (now : Timestamp) (s : Store) : {k : Kind} → Object k → Object k → Prop where
  | mark {k : Kind} {o : Object k} (controlled : k ≠ .pod) (deleted : o.isBeingDeleted = true)
      (first : o.phase ≠ some .deleting) : StatusWrite now s o (o.withPhase .deleting)
  | classPhase {c : PortClass} {phase : Phase} (live : c.isBeingDeleted = false)
      (next : c.phase = none ∧ phase = .pending ∨ c.phase = some .pending ∧ phase = .settled) :
      StatusWrite now s c (c.withPhase phase)
  | poolPending {p : PortPool} (live : p.isBeingDeleted = false) (new : p.phase = none) :
      StatusWrite now s p (p.withPhase .pending)
  | poolUnchecked {p : PortPool} {reason message : String} (live : p.isBeingDeleted = false)
      (waiting : p.phase = some .pending) (first : p.overlapStatus = none) :
      StatusWrite now s p (p.withOverlap now .unknown reason message)
  | poolChecked {p : PortPool} (live : p.isBeingDeleted = false)
      (waiting : p.phase = some .pending) (due : p.overlapStatus = some .unknown) :
      StatusWrite now s p (p.checked now s.pools.values)
  | poolPassed {p : PortPool} (live : p.isBeingDeleted = false)
      (waiting : p.phase = some .pending) (clear : p.overlapStatus = some .true_) :
      StatusWrite now s p (p.withPhase .settled)
  | claimPending {c : PortClaim} (live : c.isBeingDeleted = false) (new : c.phase = none) :
      StatusWrite now s c { c with status := some ⟨some .pending, none⟩ }
  | claimBound {c : PortClaim} {uid : String} (live : c.isBeingDeleted = false)
      (waiting : c.phase = some .pending) (identity : c.metadata.uid = some uid) :
      StatusWrite now s c { c with status := some ⟨some .settled, some (portNameForClaim uid)⟩ }
  | portPending {p : Port} (live : p.isBeingDeleted = false) (new : p.phase = none) :
      StatusWrite now s p { p with status := some ⟨some .pending, 0, none⟩ }
  | allocated {p : Port} {a : Allocation} (live : p.isBeingDeleted = false)
      (waiting : p.phase = some .pending) (served : s.find .portClass p.spec.classRef ≠ none)
      (choice : p.allocation s.pools.values s.ports.values = .ok a) :
      StatusWrite now s p (p.allocated a)

/-- What a pass over a stored object has left to do once it has read. -/
inductive Due (now : Timestamp) (claimPrefix : String) (s : Store) :
    {k : Kind} → Object k → Pass Outcome → Prop where
  | idle {k : Kind} {o : Object k} {outcome : Outcome} (idle : Idle claimPrefix s o outcome) :
      Due now claimPrefix s o (.done outcome)
  | status {k : Kind} {o new : Object k} (write : StatusWrite now s o new) :
      Due now claimPrefix s o (writeStatus new)
  | release {k : Kind} {o : Object k} (deleted : o.isBeingDeleted = true)
      (marked : o.phase = some .deleting) (held : o.isProtected = true)
      (clear : ¬ s.HasDependent claimPrefix o) : Due now claimPrefix s o (release o)
  | bind {c : PortClaim} {ns uid : String} (live : c.isBeingDeleted = false)
      (waiting : c.phase = some .pending) (within : c.metadata.namespace_ = some ns)
      (identity : c.metadata.uid = some uid) : Due now claimPrefix s c (bindClaim c)
  | restore {c : PortClaim} {ns uid name : String} (live : c.isBeingDeleted = false)
      (settled : c.phase = some .settled) (backing : c.backingPortName = some name)
      (absent : s.find .port name = none) (within : c.metadata.namespace_ = some ns)
      (identity : c.metadata.uid = some uid) :
      Due now claimPrefix s c (ensureBackingPort c fun _ => finish)
  | reclaim {p : Port} {r : ClaimReference} (live : p.isBeingDeleted = false)
      (settled : p.phase = some .settled) (owner : p.spec.claimRef = some r)
      (orphan : s.hasClaim r = false) : Due now claimPrefix s p (commit (.deletePort p))

/-- On this store the rest of a pass reads and then comes to what is due. -/
def ReachesDue (now later : Timestamp) (claimPrefix : String) (s : Store) {k : Kind} (o : Object k)
    (rest : Pass Outcome) : Prop :=
  ∃ p, Due now claimPrefix s o p ∧ rest.ReadsTo later s p

def ComesToDue (now later : Timestamp) (claimPrefix : String) (s : Store) {k : Kind} (o : Object k)
    (rest : Pass Outcome) : Prop :=
  ∃ p, Due now claimPrefix s o p ∧ s.run later rest = s.run later p

variable {now later : Timestamp} {claimPrefix : String} {s : Store} {k : Kind} {name : String}

theorem Due.reached {o : Object k} {p : Pass Outcome} (due : Due now claimPrefix s o p) :
    ReachesDue now later claimPrefix s o p := ⟨p, due, .here p⟩

theorem ReachesDue.of_reads {o : Object k} {rest rest' : Pass Outcome}
    (reads : rest.ReadsTo later s rest') (reaches : ReachesDue now later claimPrefix s o rest') :
    ReachesDue now later claimPrefix s o rest := by
  obtain ⟨p, due, rest⟩ := reaches
  exact ⟨p, due, reads.trans rest⟩

theorem ReachesDue.comes {o : Object k} {rest : Pass Outcome}
    (reaches : ReachesDue now later claimPrefix s o rest) :
    ComesToDue now later claimPrefix s o rest := by
  obtain ⟨p, due, reads⟩ := reaches
  exact ⟨p, due, reads.run_eq⟩

theorem reads_checkClaim (r : ClaimReference) (next : Bool → Pass Outcome) :
    (checkClaim r next).ReadsTo now s (next (s.hasClaim r)) := by
  unfold checkClaim Store.hasClaim
  cases found : s.find .portClaim (ObjectRef.key ⟨some r.namespace_, r.name⟩) with
  | some c => exact reads_find found
  | none => exact reads_find_absent found

theorem reaches_finalize {o : Object k} {check : Pass Outcome} (controlled : k ≠ .pod)
    (deleted : o.isBeingDeleted = true)
    (checks : o.phase = some .deleting → o.isProtected = true →
      ReachesDue now later claimPrefix s o check) :
    ReachesDue now later claimPrefix s o
      (match DeletionStep.plan (o.phase = some .deleting) o.isProtected with
        | .markDeleting => writeStatus (o.withPhase .deleting)
        | .converged => finish
        | .checkDependents => check) := by
  by_cases marked : o.phase = some .deleting
  · cases held : o.isProtected with
    | true => simpa [DeletionStep.plan, marked] using checks marked held
    | false =>
      have due : Due now claimPrefix s o finish := .idle (.released deleted marked held)
      simpa [DeletionStep.plan, marked] using due.reached
  · have due : Due now claimPrefix s o (writeStatus (o.withPhase .deleting)) :=
      .status (.mark controlled deleted marked)
    simpa [DeletionStep.plan, marked] using due.reached

theorem reaches_checked {o : Object k} (deleted : o.isBeingDeleted = true)
    (marked : o.phase = some .deleting) (held : o.isProtected = true) {clear : Bool}
    (is : clear = true ↔ ¬ s.HasDependent claimPrefix o) :
    ReachesDue now later claimPrefix s o (if clear then release o else finish) := by
  cases clear with
  | true => exact (Due.release deleted marked held (is.mp rfl)).reached
  | false =>
    have dependent : s.HasDependent claimPrefix o := by
      rw [← Classical.not_not (a := s.HasDependent claimPrefix o), ← is]
      exact Bool.false_ne_true
    exact (Due.idle (.needed deleted marked dependent)).reached

theorem selected_nil {P : Object k → Bool} :
    (s.table k).values.filter P = [] ↔ ∀ key o, s.find k key = some o → P o = false := by
  rw [List.filter_eq_nil_iff]
  constructor
  · intro none key o found
    simpa using none o (Store.mem_values.mpr ⟨key, found⟩)
  · intro none o listed
    obtain ⟨key, found⟩ := Store.mem_values.mp listed
    simp [none key o found]

theorem reaches_portClass {c : PortClass} (found : s.find .portClass name = some c) :
    ReachesDue now later claimPrefix s c (portClass name) := by
  change s.find .portClass (ObjectRef.key ⟨none, name⟩) = some c at found
  apply ReachesDue.of_reads (reads_find found)
  cases deleted : c.isBeingDeleted with
  | true =>
    simp only [deleted, if_true]
    apply reaches_finalize (by decide) deleted
    intro marked held
    apply ReachesDue.of_reads (reads_ask_list.trans reads_ask_list)
    apply reaches_checked deleted marked held
    have pools := selected_nil (s := s) (k := .portPool)
      (P := fun p => p.spec.classRef = c.metadata.name.getD "")
    have ports := selected_nil (s := s) (k := .port)
      (P := fun p => p.spec.classRef = c.metadata.name.getD "")
    rw [Bool.and_eq_true, List.isEmpty_iff, List.isEmpty_iff, Selection.poolsOfClass,
      Selection.portsOfClass, pools, ports]
    simp [Store.HasDependent]
  | false =>
    simp only [deleted, Bool.false_eq_true, if_false]
    cases phase : c.phase with
    | none => exact (Due.status (.classPhase deleted (Or.inl ⟨phase, rfl⟩))).reached
    | some phase' =>
      cases phase' with
      | pending => exact (Due.status (.classPhase deleted (Or.inr ⟨phase, rfl⟩))).reached
      | settled => exact (Due.idle (.settled (Or.inl rfl) deleted phase)).reached
      | deleting => exact (Due.idle (.misplaced (by decide) deleted phase)).reached

theorem reaches_portPool {p : PortPool} (found : s.find .portPool name = some p) :
    ReachesDue now later claimPrefix s p (portPool now name) := by
  change s.find .portPool (ObjectRef.key ⟨none, name⟩) = some p at found
  apply ReachesDue.of_reads (reads_find found)
  cases deleted : p.isBeingDeleted with
  | true =>
    simp only [deleted, if_true]
    apply reaches_finalize (by decide) deleted
    intro marked held
    apply ReachesDue.of_reads reads_ask_list
    apply reaches_checked deleted marked held
    have ports := selected_nil (s := s) (k := .port)
      (P := fun q => Port.poolName q = some p.displayName && Port.number q ≠ 0)
    rw [List.isEmpty_iff, Selection.portsOfPool, ports]
    simp [Store.HasDependent]
  | false =>
    simp only [deleted, Bool.false_eq_true, if_false]
    cases phase : p.phase with
    | none => exact (Due.status (.poolPending deleted phase)).reached
    | some phase' =>
      cases phase' with
      | pending =>
        unfold checkOverlap
        cases verdict : p.overlapStatus with
        | none => exact (Due.status (.poolUnchecked deleted phase verdict)).reached
        | some status =>
          cases status with
          | false_ => exact (Due.idle (.overlapping deleted phase verdict)).reached
          | unknown =>
            exact .of_reads reads_ask_list (Due.status (.poolChecked deleted phase verdict)).reached
          | true_ => exact (Due.status (.poolPassed deleted phase verdict)).reached
      | settled => exact (Due.idle (.settled (Or.inr rfl) deleted phase)).reached
      | deleting => exact (Due.idle (.misplaced (by decide) deleted phase)).reached

theorem reaches_ensureBackingPort {c : PortClaim} {next : String → Pass Outcome}
    (live : c.isBeingDeleted = false)
    (phase : c.phase = some .pending ∨ c.phase = some .settled)
    (complete : ∀ ns uid, c.metadata.namespace_ = some ns → c.metadata.uid = some uid →
      Due now claimPrefix s c (ensureBackingPort c next)) :
    ReachesDue now later claimPrefix s c (ensureBackingPort c next) := by
  cases within : c.metadata.namespace_ with
  | none =>
    have fails : ensureBackingPort c next =
        .done (.error (.missingField c.displayName "metadata.namespace")) := by
      simp only [ensureBackingPort, within]
    rw [fails]
    exact (Due.idle (.incomplete live phase (Or.inl within))).reached
  | some ns =>
    cases identity : c.metadata.uid with
    | none =>
      have fails : ensureBackingPort c next =
          .done (.error (.missingField c.displayName "metadata.uid")) := by
        simp only [ensureBackingPort, within, identity]
      rw [fails]
      exact (Due.idle (.incomplete live phase (Or.inr identity))).reached
    | some uid => exact (complete ns uid within identity).reached

theorem reaches_healClaim {c : PortClaim} (live : c.isBeingDeleted = false)
    (settled : c.phase = some .settled) :
    ReachesDue now later claimPrefix s c (healClaim c) := by
  unfold healClaim
  cases backing : c.backingPortName with
  | none =>
    have unidentified : c.metadata.uid = none := by
      cases uid : c.metadata.uid with
      | none => rfl
      | some uid => simp [PortClaim.backingPortName, uid] at backing
    exact (Due.idle (.incomplete live (Or.inr settled) (Or.inr unidentified))).reached
  | some portName =>
    cases stored : s.find .port portName with
    | some p =>
      have here : s.find .port (ObjectRef.key ⟨none, portName⟩) = some p := stored
      apply ReachesDue.of_reads (reads_find here)
      exact (Due.idle (.backed live settled backing (by simp [stored]))).reached
    | none =>
      have absent : s.find .port (ObjectRef.key ⟨none, portName⟩) = none := stored
      apply ReachesDue.of_reads (reads_find_absent absent)
      apply reaches_ensureBackingPort live (Or.inr settled)
      intro ns uid within identity
      exact .restore live settled backing stored within identity

theorem reaches_portClaim {c : PortClaim} {ns : String}
    (found : s.find .portClaim (ObjectRef.key ⟨some ns, name⟩) = some c) :
    ReachesDue now later claimPrefix s c (portClaim claimPrefix ns name) := by
  apply ReachesDue.of_reads (reads_find found)
  cases deleted : c.isBeingDeleted with
  | true =>
    simp only [deleted, if_true]
    apply reaches_finalize (by decide) deleted
    intro marked held
    apply ReachesDue.of_reads reads_ask_listPods
    have users : (s.pods.values.filter fun pod => pod.metadata.namespace_ =
        some (c.metadata.namespace_.getD "")).any (PortClaim.isUsedBy c.displayName claimPrefix) =
          true ↔ s.HasDependent claimPrefix c := by
      simp only [List.any_eq_true, List.mem_filter, decide_eq_true_eq, Store.HasDependent]
      constructor
      · rintro ⟨pod, ⟨listed, within⟩, used⟩
        obtain ⟨key, found⟩ := Store.mem_values (k := .pod).mp listed
        exact ⟨key, pod, found, within, used⟩
      · rintro ⟨key, pod, found, within, used⟩
        exact ⟨pod, ⟨Store.mem_values (k := .pod).mpr ⟨key, found⟩, within⟩, used⟩
    split
    next used => exact (Due.idle (.needed deleted marked (users.mp used))).reached
    next unused => exact (Due.release deleted marked held fun d => unused (users.mpr d)).reached
  | false =>
    simp only [deleted, Bool.false_eq_true, if_false]
    cases phase : c.phase with
    | none => exact (Due.status (.claimPending deleted phase)).reached
    | some phase' =>
      cases phase' with
      | pending =>
        apply reaches_ensureBackingPort deleted (Or.inl phase)
        intro ns uid within identity
        exact .bind deleted phase within identity
      | settled => exact reaches_healClaim deleted phase
      | deleting => exact (Due.idle (.misplaced (by decide) deleted phase)).reached

theorem reaches_allocatePort {p : Port} (live : p.isBeingDeleted = false)
    (waiting : p.phase = some .pending) :
    ReachesDue now later claimPrefix s p (allocatePort p) := by
  cases served : s.find .portClass p.spec.classRef with
  | none =>
    have absent : s.find .portClass (ObjectRef.key ⟨none, p.spec.classRef⟩) = none := served
    have fails : (allocatePort p).ReadsTo later s
        (.done (.error (.store (.notFound .portClass p.spec.classRef)))) :=
      reads_ask_get_absent absent
    exact (Due.idle (.classless live waiting served)).reached.of_reads fails
  | some c =>
    have here : s.find .portClass (ObjectRef.key ⟨none, p.spec.classRef⟩) = some c := served
    apply ReachesDue.of_reads (reads_ask_get here)
    apply ReachesDue.of_reads (.alone (.here _))
    apply ReachesDue.of_reads reads_ask_list
    apply ReachesDue.of_reads reads_ask_list
    have served' : s.find .portClass p.spec.classRef ≠ none := by simp [served]
    split
    next e failed => exact (Due.idle (.unserved live waiting served' failed)).reached
    next a choice => exact (Due.status (.allocated live waiting served' choice)).reached

theorem reaches_port (now later : Timestamp) (claimPrefix : String) {p : Port}
    (found : s.find .port name = some p) :
    ReachesDue now later claimPrefix s p (port name) := by
  change s.find .port (ObjectRef.key ⟨none, name⟩) = some p at found
  apply ReachesDue.of_reads (reads_find found)
  cases deleted : p.isBeingDeleted with
  | true =>
    simp only [deleted, if_true]
    apply reaches_finalize (by decide) deleted
    intro marked held
    cases owner : p.spec.claimRef with
    | none =>
      refine (Due.release deleted marked held ?_).reached
      simp [Store.HasDependent, owner]
    | some r =>
      apply ReachesDue.of_reads (reads_checkClaim r _)
      cases lives : s.hasClaim r with
      | true => exact (Due.idle (.needed deleted marked ⟨r, owner, lives⟩)).reached
      | false =>
        refine (Due.release deleted marked held ?_).reached
        simp [Store.HasDependent, owner, lives]
  | false =>
    simp only [deleted, Bool.false_eq_true, if_false]
    cases phase : p.phase with
    | none => exact (Due.status (.portPending deleted phase)).reached
    | some phase' =>
      cases phase' with
      | pending => exact reaches_allocatePort deleted phase
      | settled =>
        unfold reclaimPort
        cases owner : p.spec.claimRef with
        | none => exact (Due.idle (.owned deleted phase (by simp [owner]))).reached
        | some r =>
          apply ReachesDue.of_reads (reads_checkClaim r _)
          cases lives : s.hasClaim r with
          | true => exact (Due.idle (.owned deleted phase (by simp [owner, lives]))).reached
          | false => exact (Due.reclaim deleted phase owner lives).reached
      | deleting => exact (Due.idle (.misplaced (by decide) deleted phase)).reached

theorem comes_port (now later : Timestamp) (claimPrefix : String) {p : Port}
    (found : s.find .port name = some p) :
    ComesToDue now later claimPrefix s p (port name) := (reaches_port now later _ found).comes

/-- A pass over a stored object reads and comes to what is due for it. -/
theorem reaches_due (now later : Timestamp) (claimPrefix : String) {k : Kind} {ref : ObjectRef}
    {o : Object k} (controlled : k ≠ .pod) (found : s.find k (subject k ref).key = some o) :
    ReachesDue now later claimPrefix s o (pass now claimPrefix k ref) := by
  cases k with
  | portClass => exact reaches_portClass found
  | portPool => exact reaches_portPool found
  | portClaim => exact reaches_portClaim found
  | port => exact reaches_port now later claimPrefix found
  | pod => contradiction

theorem comes_to_due (now later : Timestamp) (claimPrefix : String) {k : Kind} {ref : ObjectRef}
    {o : Object k} (controlled : k ≠ .pod) (found : s.find k (subject k ref).key = some o) :
    ComesToDue now later claimPrefix s o (pass now claimPrefix k ref) :=
  (reaches_due now later claimPrefix controlled found).comes

theorem reads_pass_absent (now later : Timestamp) (claimPrefix : String) {k : Kind}
    {ref : ObjectRef} (absent : k = .pod ∨ s.find k (subject k ref).key = none) :
    (pass now claimPrefix k ref).ReadsTo later s finish := by
  cases k with
  | portClass =>
    have nowhere : s.find .portClass (ObjectRef.key ⟨none, ref.name⟩) = none :=
      absent.resolve_left nofun
    rw [pass, portClass]
    exact reads_find_absent nowhere
  | portPool =>
    have nowhere : s.find .portPool (ObjectRef.key ⟨none, ref.name⟩) = none :=
      absent.resolve_left nofun
    rw [pass, portPool]
    exact reads_find_absent nowhere
  | portClaim =>
    have nowhere : s.find .portClaim
        (ObjectRef.key ⟨some (ref.namespace_.getD ""), ref.name⟩) = none :=
      absent.resolve_left nofun
    rw [pass, portClaim]
    exact reads_find_absent nowhere
  | port =>
    have nowhere : s.find .port (ObjectRef.key ⟨none, ref.name⟩) = none := absent.resolve_left nofun
    rw [pass, port]
    exact reads_find_absent nowhere
  | pod => exact .here _

theorem run_pass_absent (now later : Timestamp) (claimPrefix : String) {k : Kind} {ref : ObjectRef}
    (absent : k = .pod ∨ s.find k (subject k ref).key = none) :
    s.run later (pass now claimPrefix k ref) = (.ok (), s) :=
  (reads_pass_absent now later claimPrefix absent).run_eq

end Reconcile
end HostPorts
