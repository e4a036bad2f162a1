import HostPorts.Admission.Validation
import HostPorts.Proofs.Object.Lifecycle
import HostPorts.Proofs.Pass.Requests
import HostPorts.Proofs.Pass.Strokes

/-!
Reviews of what passes write. Where others write statuses as well, reviews see to it that a port
keeps its number and a claim its bound port, and passes have to get through the same reviews. They
do as long as nothing is recorded before an object settles; a status that records a number without
the settled phase passes the review if the number is the old one, but a pass then starts over.
-/
namespace HostPorts

namespace Object

variable {k : Kind} {o old new : Object k}

def reviewErrors : {k : Kind} → Object k → Object k → List FieldError
  | .portClaim, new, old => PortClaim.updateErrors new old
  | .port, new, old => Port.errors new (some old)
  | _, _, _ => []

/-- The number of a port and the bound port of a claim stay once they are set. -/
def Keeps : {k : Kind} → Object k → Object k → Prop
  | .portClaim, old, new => ∀ name, PortClaim.boundPortName old = some name →
    PortClaim.boundPortName new = some name
  | .port, old, new => Port.number old ≠ 0 → Port.number new = Port.number old
  | _, _, _ => True

/-- Nothing is recorded before the object settles. -/
def RecordsLate : {k : Kind} → Object k → Prop
  | .portClaim, c => c.phase = none ∨ c.phase = some .pending → PortClaim.boundPortName c = none
  | .port, p => p.phase = none ∨ p.phase = some .pending → Port.number p = 0
  | _, _ => True

theorem SameRecords.keeps (same : old.SameRecords new) : old.Keeps new := by
  cases k with
  | portClaim => exact fun _ bound => Eq.trans same bound
  | port => exact fun _ => same.1
  | _ => trivial

theorem keeps_of_status (same : new.status = old.status) : old.Keeps new :=
  (SameRecords.of_status same).keeps

theorem Keeps.refl (o : Object k) : o.Keeps o := keeps_of_status rfl

theorem Keeps.trans (h : old.Keeps o) (h' : o.Keeps new) : old.Keeps new := by
  cases k with
  | portClaim => exact fun name bound => h' name (h name bound)
  | port =>
    intro held
    have same := h held
    exact (h' (by rwa [same])).trans same
  | _ => trivial

theorem keeps_all (h : Relation.ReflTransGen Keeps old new) : old.Keeps new := by
  induction h with
  | refl => exact .refl old
  | tail _ step ih => exact ih.trans step

theorem keeps_of_reviewErrors (accepted : new.reviewErrors old = []) : old.Keeps new := by
  cases k with
  | portClaim =>
    intro name bound
    have frozen := (List.append_eq_nil_iff.mp accepted).2
    simpa [bound] using frozen
  | port =>
    intro held
    have frozen := (List.append_eq_nil_iff.mp (List.append_eq_nil_iff.mp accepted).1).2
    simpa [held] using frozen
  | _ => trivial

theorem RecordsLate.keeps (h : old.RecordsLate)
    (early : old.phase = none ∨ old.phase = some .pending) (new : Object k) : old.Keeps new := by
  cases k with
  | portClaim =>
    intro name bound
    rw [h early] at bound
    contradiction
  | port => exact absurd (h early)
  | _ => trivial

theorem RecordsLate.of_status (h : old.RecordsLate) (same : new.status = old.status) :
    new.RecordsLate := by
  have phase : new.phase = old.phase := by rw [Object.phase, Object.phase, same]
  have records := SameRecords.of_status same
  cases k with
  | portClaim =>
    intro early
    rw [phase] at early
    exact Eq.trans records (h early)
  | port =>
    intro early
    rw [phase] at early
    exact records.1.trans (h early)
  | _ => trivial

theorem recordsLate_of_later (later : ¬ (o.phase = none ∨ o.phase = some .pending)) :
    o.RecordsLate := by
  cases k with
  | portClaim | port => exact fun early => absurd early later
  | _ => trivial

theorem recordsLate_of_blank (blank : o.status = none) : o.RecordsLate := by
  cases k with
  | portClaim | port => exact fun early => (Proper.of_blank blank).recorded.unset early
  | _ => trivial

end Object

namespace Reconcile.StatusWrite

variable {now : Timestamp} {s : Store} {k : Kind} {o new : Object k}

theorem occasion (write : StatusWrite now s o new) :
    o.SameRecords new ∨
      o.isBeingDeleted = false ∧ (o.phase = none ∨ o.phase = some .pending) := by
  cases deleted : o.isBeingDeleted with
  | true =>
    rw [write.marks deleted]
    exact Or.inl (o.sameRecords_withPhase .deleting)
  | false => exact Or.inr ⟨rfl, write.early deleted⟩

theorem settles {p new : Port} (write : StatusWrite now s p new) (set : Port.number new ≠ 0)
    (other : Port.number new ≠ Port.number p) : new.phase = some .settled := by
  cases write with
  | mark => exact absurd (Port.number_withPhase p .deleting) other
  | portPending => exact absurd rfl set
  | allocated => rfl

/-- A review denies the write of a pass only for what it fails to keep. -/
theorem reviewErrors_eq_nil (write : StatusWrite now s o new) :
    new.reviewErrors o = [] ↔ o.Keeps new := by
  refine ⟨Object.keeps_of_reviewErrors, ?_⟩
  intro keeps
  have spec : new.spec = o.spec := by rw [write.only]
  cases k with
  | portClaim =>
    change PortClaim.updateErrors new o = []
    rw [PortClaim.updateErrors, if_neg (by simp [spec]), List.nil_append]
    cases bound : PortClaim.boundPortName o with
    | none => rfl
    | some name => simp [keeps name bound]
  | port =>
    have references : Port.updateErrors new o = [] := by
      rw [Port.updateErrors, if_neg (by simp [spec]), if_neg (by simp [spec])]
      by_cases unset : Port.number o = 0
      · simp [unset]
      · simp [keeps unset]
    have phase : ¬ (Port.number new ≠ 0 && Port.number new ≠ Port.number o &&
        new.phase ≠ some .settled) = true := by
      simp only [Bool.and_eq_true, decide_eq_true_eq]
      rintro ⟨⟨set, other⟩, unsettled⟩
      exact unsettled (write.settles set other)
    change Port.errors new (some o) = []
    rw [Port.errors, Option.map_some, Option.getD_some, references, List.nil_append]
    exact if_neg phase
  | _ => rfl

theorem keeps (write : StatusWrite now s o new) (late : o.RecordsLate) : o.Keeps new := by
  rcases write.occasion with same | ⟨_, early⟩
  · exact same.keeps
  · exact late.keeps early new

theorem denied (write : StatusWrite now s o new) (denied : new.reviewErrors o ≠ []) :
    o.isBeingDeleted = false ∧ ¬ o.RecordsLate := by
  rw [Ne, write.reviewErrors_eq_nil] at denied
  rcases write.occasion with same | ⟨live, _⟩
  · exact absurd same.keeps denied
  · exact ⟨live, fun late => denied (write.keeps late)⟩

end Reconcile.StatusWrite

theorem Reconcile.starts_over {s : Store} {k : Kind} {ref : ObjectRef} {o : Object k}
    (now later : Timestamp) (claimPrefix : String)
    (found : s.find k (Reconcile.subject k ref).key = some o) (live : o.isBeingDeleted = false)
    (new : o.phase = none) (early : ¬ o.RecordsLate) :
    ∃ written : Object k, (s, Request.updateStatus k written) ∈
        s.writesOf later (Reconcile.pass now claimPrefix k ref) ∧
      written.key = o.key ∧ written.reviewErrors o ≠ [] := by
  cases k with
  | portClaim =>
    change s.find .portClaim (ObjectRef.key ⟨some (ref.namespace_.getD ""), ref.name⟩) = some o
      at found
    refine ⟨{ o with status := some ⟨some .pending, none⟩ }, ?_, rfl, ?_⟩
    · rw [pass, portClaim, (reads_find found).writesOf_eq]
      simp only [live, new, Bool.false_eq_true, if_false]
      rw [writeStatus, writesOf_commit rfl]
      exact List.mem_singleton_self _
    · intro accepted
      have keeps := Object.keeps_of_reviewErrors accepted
      apply early
      intro _
      cases bound : PortClaim.boundPortName o with
      | none => rfl
      | some name => exact (keeps name bound).symm
  | port =>
    change s.find .port (ObjectRef.key ⟨none, ref.name⟩) = some o at found
    refine ⟨{ o with status := some ⟨some .pending, 0, none⟩ }, ?_, rfl, ?_⟩
    · rw [pass, port, (reads_find found).writesOf_eq]
      simp only [live, new, Bool.false_eq_true, if_false]
      rw [writeStatus, writesOf_commit rfl]
      exact List.mem_singleton_self _
    · intro accepted
      have keeps := Object.keeps_of_reviewErrors accepted
      apply early
      intro _
      apply Classical.byContradiction
      exact fun held => held (keeps held).symm
  | portClass | portPool | pod => exact absurd trivial early

namespace Discipline

variable {D : Discipline} {claimPrefix key : String} {sec : Section} {s : Store} {k : Kind}

/-- Where nothing is recorded early, deeds do not do so either, and keep what is recorded. -/
theorem Deed.keeps {o : Object k} (deed : D.Deed claimPrefix s sec k key (some o))
    (late : ∀ old, s.find k key = some old → old.RecordsLate) :
    o.RecordsLate ∧ ∀ old, s.find k key = some old → old.Keeps o := by
  have only : ∀ {old : Object k}, s.find k key = some old → old.Keeps o →
      ∀ old', s.find k key = some old' → old'.Keeps o := by
    intro old found keeps old' found'
    cases found.symm.trans found'
    exact keeps
  generalize is : some o = new at deed
  cases deed with
  | classPhase | poolStatus => exact ⟨trivial, fun _ _ => trivial⟩
  | claimPending here _ new =>
    cases is
    exact ⟨fun _ => rfl, only here ((late _ here).keeps (Or.inl new) _)⟩
  | claimBound here _ waiting =>
    cases is
    exact ⟨Object.recordsLate_of_later nofun, only here ((late _ here).keeps (Or.inr waiting) _)⟩
  | backing _ _ _ _ free =>
    cases is
    exact ⟨Object.recordsLate_of_blank rfl, by simp [free]⟩
  | portPending here _ new =>
    cases is
    exact ⟨fun _ => rfl, only here ((late _ here).keeps (Or.inl new) _)⟩
  | allocate here _ waiting =>
    cases is
    exact ⟨Object.recordsLate_of_later nofun, only here ((late _ here).keeps (Or.inr waiting) _)⟩
  | reclaim _ _ _ _ found _ gone =>
    rcases gone with ⟨_, none⟩ | ⟨_, now, some⟩
    · rw [none] at is
      contradiction
    · rw [some] at is
      cases is
      exact ⟨(late _ found).of_status rfl, only found (Object.keeps_of_status rfl)⟩
  | @mark _ o' controlled here =>
    rw [Object.eq_of_kept is.symm] at only ⊢
    have phase : ((o'.withPhase .deleting).withVersion s.nextVersion).phase = some .deleting :=
      Object.phase_withPhase controlled o' .deleting
    have records := (o'.sameRecords_withPhase .deleting).withVersion s.nextVersion
    exact ⟨Object.recordsLate_of_later (by simp [phase]), only here records.keeps⟩
  | @release _ o' here =>
    rw [Object.eq_of_kept is.symm] at only ⊢
    exact ⟨(late _ here).of_status o'.released_status,
      only here (Object.keeps_of_status o'.released_status)⟩

end Discipline

/-- What happens beside passes: users create and delete, and others write statuses of claims and
ports if a review finds nothing wrong and the object fits. -/
inductive ReviewedStep (fits : {k : Kind} → Object k → Prop) (s : Store) : Store → Prop where
  | user (a : UserAct) (ok : a.CreatesBlank) : ReviewedStep fits s (a.perform s)
  | write {k : Kind} {old new : Object k} (reviewed : k = .portClaim ∨ k = .port)
      (here : s.find k new.key = some old) (accepted : new.reviewErrors old = [])
      (fit : fits new) : ReviewedStep fits s (s.updateStatus new).2

/-- Along serial runs with reviewed writes, whatever status a pass writes would pass the review as
well, and numbers and bound ports stay once they are set. -/
def AdmissionAgrees (fits : {k : Kind} → Object k → Prop) (claimPrefix : String) : Prop :=
  ∀ s, SeriallyReachable (ReviewedStep fits) claimPrefix s →
    (∀ now later k ref t k' (new : Object k'), (t, Request.updateStatus k' new) ∈
        s.writesOf later (Reconcile.pass now claimPrefix k ref) →
      ∃ old, t.find k' new.key = some old ∧ new.reviewErrors old = []) ∧
    ∀ s', Relation.ReflTransGen (SerialStep (ReviewedStep fits) claimPrefix) s s' →
      ∀ k key key' (o o' : Object k), s.find k key = some o → s'.find k key' = some o' →
        o'.metadata.uid = o.metadata.uid → o.Keeps o'

namespace Store

variable {s s' : Store} {k : Kind} {key : String}

structure Late (s : Store) : Prop where
  orderly : s.Orderly
  late : ∀ k key (o : Object k), s.find k key = some o → o.RecordsLate

namespace Late

theorem empty : Late {} := ⟨.empty, fun _ _ _ found => absurd found not_find_empty⟩

theorem of_unchanged (h : s.Late) (same : s.Unchanged s') : s'.Late := by
  refine ⟨h.orderly.of_unchanged same, ?_⟩
  intro k key o found
  exact h.late k key o ((same.find k key).symm.trans found)

theorem of_puts (h : s.Late) (orderly : s'.Orderly) {new : Option (Object k)}
    (puts : s.Puts s' k key new) (heir : ∀ o, new = some o → o.RecordsLate) : s'.Late :=
  ⟨orderly, puts.entries heir h.late⟩

theorem perform (h : s.Late) {a : UserAct} (ok : a.CreatesBlank) : (a.perform s).Late :=
  ⟨h.orderly.perform a,
    each_perform h.late ok (fun _ _ => Object.recordsLate_of_blank) fun _ _ _ _ late =>
      late.of_status rfl⟩

end Late
end Store

namespace Course

def frozen : Course where
  step _ := Object.Keeps
  inv := Store.Late
  refl _ := .refl
  orderly h := h.orderly

theorem frozen_upheld (fault : Request → StoreError → Prop) (claimPrefix : String) :
    (frozen.discipline fault).Upholds claimPrefix where
  idle valid same := ⟨valid.of_unchanged same, .of_unchanged frozen.refl same⟩
  deed {sec s s' k key new} valid orderly puts deed := by
    constructor
    · apply valid.of_puts orderly puts
      intro o eq
      subst eq
      exact (deed.keeps (valid.late k key)).1
    · refine lineage_of_deed orderly puts deed ?_
      intro old o eq found _
      subst eq
      exact (deed.keeps (valid.late k key)).2 old found

theorem frozen_others {s s' : Store} (valid : s.Late)
    (other : ReviewedStep Object.RecordsLate s s') :
    s'.Late ∧ Store.Lineage frozen.step s s' := by
  cases other with
  | user a ok =>
    exact ⟨valid.perform ok,
      .perform frozen.refl (fun _ _ _ _ => Object.keeps_of_status rfl) valid.orderly a⟩
  | @write k old new reviewed here accepted fit =>
    have orderly := valid.orderly.answer Cluster.noon (.updateStatus k new)
    rcases Store.updateStatus_cases new s with same | ⟨met, found, _, _, puts⟩
    · exact ⟨valid.of_unchanged same, .of_unchanged frozen.refl same⟩
    · cases here.symm.trans found
      have keeps : old.Keeps (old.withStatusOf new s.nextVersion) := by
        have := Object.keeps_of_reviewErrors accepted
        rcases reviewed with rfl | rfl <;> exact this
      constructor
      · apply valid.of_puts orderly puts
        intro o eq
        rw [Object.eq_of_kept eq]
        exact fit.of_status rfl
      · apply Store.Lineage.of_puts frozen.refl orderly puts
        intro o eq
        rw [Object.eq_of_kept eq]
        exact Or.inl ⟨old, here, rfl, keeps⟩

end Course

theorem orderly_of_reviewed {fits : {k : Kind} → Object k → Prop} {claimPrefix : String} {s : Store}
    (reachable : SeriallyReachable (ReviewedStep fits) claimPrefix s) : s.Orderly := by
  have upheld : (Discipline.solo Store.Orderly id).Upholds claimPrefix :=
    { idle := fun valid same => ⟨Store.Orderly.of_unchanged valid same, trivial⟩
      deed := fun _ orderly _ _ => ⟨orderly, trivial⟩ }
  refine Discipline.inv_of_seriallyReachable upheld .empty ?_ reachable
  intro s s' valid other
  cases other with
  | user a ok => exact Store.Orderly.perform valid a
  | @write k _ new => exact Store.Orderly.answer valid Cluster.noon (.updateStatus k new)

/-- Reviews do not deny what passes write if nobody records a number or a bound port before the
settled phase. Without that they deny just what drops a record of a live object that has not
settled, and every pass over one in no phase at all asks for such a write. -/
theorem admission_agrees (claimPrefix : String) :
    AdmissionAgrees Object.RecordsLate claimPrefix ∧
    ∀ s, SeriallyReachable (ReviewedStep fun _ => True) claimPrefix s →
      (∀ now later k ref t k' (new : Object k'), (t, Request.updateStatus k' new) ∈
          s.writesOf later (Reconcile.pass now claimPrefix k ref) →
        ∃ old, t.find k' new.key = some old ∧ (new.reviewErrors old = [] ↔ old.Keeps new) ∧
          (new.reviewErrors old ≠ [] → old.isBeingDeleted = false ∧ ¬ old.RecordsLate)) ∧
      ∀ now later k ref (o : Object k), s.find k (Reconcile.subject k ref).key = some o →
        o.isBeingDeleted = false → o.phase = none → ¬ o.RecordsLate →
        ∃ new : Object k, (s, Request.updateStatus k new) ∈
            s.writesOf later (Reconcile.pass now claimPrefix k ref) ∧
          s.find k new.key = some o ∧ new.reviewErrors o ≠ [] := by
  have meets : ∀ {fits : {k : Kind} → Object k → Prop} {s},
      SeriallyReachable (ReviewedStep fits) claimPrefix s →
      ∀ {now later k ref t k'} {new : Object k'}, (t, Request.updateStatus k' new) ∈
          s.writesOf later (Reconcile.pass now claimPrefix k ref) →
        ∃ old, t.find k' new.key = some old ∧ Reconcile.StatusWrite now t old new := by
    intro fits s reachable now later k ref t k' new asked
    cases Reconcile.dueWrite_of_pass (orderly_of_reviewed reachable).keyed asked with
    | @status _ old _ here write =>
      have key : new.key = old.key := by
        rw [write.only, Object.key, Object.key, Object.ref, Object.ref]
      exact ⟨old, by rwa [key], write⟩
  constructor
  · intro s reachable
    have upheld := Course.frozen_upheld (fun _ _ => False) claimPrefix
    have valid : s.Late := Discipline.inv_of_seriallyReachable upheld .empty
      (fun valid other => (Course.frozen_others valid other).1) reachable
    constructor
    · intro now later k ref t k' new asked
      obtain ⟨old, found, write⟩ := meets reachable asked
      have late : t.Late := (Discipline.safe_pass upheld now k ref s).meets valid asked
      exact ⟨old, found, write.reviewErrors_eq_nil.mpr (write.keeps (late.late k' _ old found))⟩
    · intro s' moves k key key' o o' found found' uid
      have lineage := Course.lineage_of_serialSteps upheld Course.frozen_others valid moves
      exact Object.keeps_all (lineage.same valid.orderly found found' uid).2
  · intro s reachable
    constructor
    · intro now later k ref t k' new asked
      obtain ⟨old, found, write⟩ := meets reachable asked
      exact ⟨old, found, write.reviewErrors_eq_nil, write.denied⟩
    · intro now later k ref o found live new early
      obtain ⟨written, asked, key, denied⟩ :=
        Reconcile.starts_over now later claimPrefix found live new early
      refine ⟨written, asked, ?_, denied⟩
      rwa [key, (orderly_of_reviewed reachable).keyed k _ o found]

open Cluster (noon)

def Store.restate (key : String) (status : PortStatus) (s : Store) : Store :=
  match s.find .port key with
  | some p => (s.updateStatus (k := .port) { p with status := some status }).2
  | none => s

theorem restate_reachable {fits : {k : Kind} → Object k → Prop} {claimPrefix : String} {s : Store}
    {key : String} {status : PortStatus}
    (reachable : SeriallyReachable (ReviewedStep fits) claimPrefix s)
    (passes : ∃ p ∈ s.find .port key,
      Object.reviewErrors (k := .port) { p with status := some status } p = [])
    (fit : ∀ p : Port, fits (k := .port) { p with status := some status }) :
    SeriallyReachable (ReviewedStep fits) claimPrefix (s.restate key status) := by
  obtain ⟨p, found, accepted⟩ := passes
  have here : s.find .port p.key = some p := by
    rwa [(orderly_of_reviewed reachable).keyed .port key p found]
  rw [Store.restate, found]
  exact reachable.tail (.other (.write (Or.inr rfl) here accepted (fit p)))

theorem play_reachable {fits : {k : Kind} → Object k → Prop} {claimPrefix : String} {s : Store}
    (reachable : SeriallyReachable (ReviewedStep fits) claimPrefix s) (moves : List SerialMove)
    (acts : ∀ m ∈ moves, m.Acts UserAct.CreatesBlank) :
    SeriallyReachable (ReviewedStep fits) claimPrefix
      (moves.foldl (SerialMove.play claimPrefix) s) :=
  SerialMove.reachable moves reachable (fun _ a ok => .user a ok) acts

def portNumbered : List SerialMove :=
  [.act (.insert .portClass ⟨{ name := some "c" }, ⟨⟩, none⟩ noon),
    .act (.insert .portPool ⟨{ name := some "n" }, ⟨"c", 5000, 5009, true⟩, none⟩ noon),
    .act (.insert .port
      ⟨{ name := some "a", finalizers := some [ProtectionToken.ofPort.text] }, ⟨none, "c"⟩, none⟩
      noon)] ++
  List.replicate 3 (.pass noon .portPool ⟨none, "n"⟩) ++
  List.replicate 2 (.pass noon .port ⟨none, "a"⟩)

def portRestated : Store :=
  [SerialMove.act (.delete .port ⟨none, "a"⟩ noon)].foldl (SerialMove.play "claims")
    ((portNumbered.foldl (SerialMove.play "claims") {}).restate "a" ⟨some .settled, 5000, some "m"⟩)

theorem portRestated_reachable :
    SeriallyReachable (ReviewedStep Object.RecordsLate) "claims" portRestated := by
  have empty : SeriallyReachable (ReviewedStep Object.RecordsLate) "claims" {} := .refl
  have numbered := play_reachable empty portNumbered (by decide +kernel)
  refine play_reachable (restate_reachable numbered (by decide +kernel) ?_) _ (by decide +kernel)
  exact fun p early => absurd early (by simp [Object.phase, Object.phaseOf])

def portRelapsed : Store :=
  (([SerialMove.act (.insert .port ⟨{ name := some "a" }, ⟨none, "c"⟩, none⟩ noon)].foldl
    (SerialMove.play "claims") {}).restate "a" ⟨some .settled, 5000, none⟩).restate "a"
      ⟨none, 5000, none⟩

theorem portRelapsed_reachable :
    SeriallyReachable (ReviewedStep fun _ => True) "claims" portRelapsed := by
  refine restate_reachable (restate_reachable ?_ (by decide +kernel) fun _ => trivial)
    (by decide +kernel) fun _ => trivial
  exact play_reachable .refl _ (by decide +kernel)

theorem portRelapsed_early : ∃ p : Port, portRelapsed.find .port "a" = some p ∧
    p.isBeingDeleted = false ∧ p.phase = none ∧ ¬ p.RecordsLate := by
  have stored : ∃ p ∈ portRelapsed.find .port "a", p.isBeingDeleted = false ∧ p.phase = none ∧
      Port.number p ≠ 0 := by decide +kernel
  obtain ⟨p, found, live, new, set⟩ := stored
  exact ⟨p, found, live, new, fun late => set (late (Or.inl new))⟩

theorem admission_agrees_restated :
    (∃ p p' new : Port, portRestated.find .port "a" = some p ∧ p.number = 5000 ∧
        (portRestated, Request.updateStatus .port new) ∈
          portRestated.writesOf noon (Reconcile.pass noon "claims" .port ⟨none, "a"⟩) ∧
        new.errors (some p) = [] ∧
        (portRestated.run noon (Reconcile.pass noon "claims" .port ⟨none, "a"⟩)).2.find .port "a" =
          some p' ∧ p'.number = 5000) ∧
      ∃ p new : Port, portRelapsed.find .port "a" = some p ∧
        (portRelapsed, Request.updateStatus .port new) ∈
          portRelapsed.writesOf noon (Reconcile.pass noon "claims" .port ⟨none, "a"⟩) ∧
        new.errors (some p) ≠ [] := by
  have agrees := admission_agrees "claims"
  constructor
  · obtain ⟨accepts, keeps⟩ := agrees.1 _ portRestated_reachable
    have stored : ∃ p ∈ portRestated.find .port "a", ∃ p' ∈ (portRestated.run noon
          (Reconcile.pass noon "claims" .port ⟨none, "a"⟩)).2.find .port "a",
        p.isBeingDeleted = true ∧ p.phase = some .settled ∧ Port.number p = 5000 ∧
          p'.metadata.uid = p.metadata.uid := by decide +kernel
    obtain ⟨p, found, p', found', deleted, settled, number, uid⟩ := stored
    have here : portRestated.find .port (ObjectRef.key ⟨none, "a"⟩) = some p := found
    have asked : (portRestated, Request.updateStatus .port (p.withPhase .deleting)) ∈
        portRestated.writesOf noon (Reconcile.pass noon "claims" .port ⟨none, "a"⟩) := by
      rw [Reconcile.pass, Reconcile.port, (Reconcile.reads_find here).writesOf_eq]
      have first : DeletionStep.plan (p.phase = some .deleting) p.isProtected = .markDeleting := by
        simp [DeletionStep.plan, settled]
      simp only [deleted, if_true, Reconcile.finalizePort, first]
      rw [Reconcile.writeStatus, Reconcile.writesOf_commit rfl]
      exact List.mem_singleton_self _
    have key : (p.withPhase .deleting).key = "a" := by
      rw [← (orderly_of_reviewed portRestated_reachable).keyed .port "a" p found]
      rfl
    obtain ⟨old, met, accepted⟩ := accepts _ _ _ _ _ _ _ asked
    rw [key] at met
    cases met.symm.trans found
    have same : Port.number p' = Port.number p := by
      refine keeps _ (.single (.pass noon noon .port ⟨none, "a"⟩)) .port "a" "a" p p' found found'
        uid ?_
      rw [number]
      decide
    exact ⟨p, p', _, found, number, asked, accepted, found', same.trans number⟩
  · obtain ⟨p, found, live, new, early⟩ := portRelapsed_early
    obtain ⟨written, asked, _, denied⟩ :=
      (agrees.2 _ portRelapsed_reachable).2 noon noon .port ⟨none, "a"⟩ p found live new early
    exact ⟨p, written, found, asked, denied⟩

/-- As things are, a pass asks for what a review denies. -/
theorem admission_denies : ¬ AdmissionAgrees (fun _ => True) "claims" := by
  intro agrees
  obtain ⟨p, found, live, new, early⟩ := portRelapsed_early
  have here : portRelapsed.find .port (Reconcile.subject .port ⟨none, "a"⟩).key = some p := found
  obtain ⟨written, asked, key, denied⟩ :=
    Reconcile.starts_over noon noon "claims" here live new early
  obtain ⟨old, met, accepted⟩ := (agrees _ portRelapsed_reachable).1 _ _ _ _ _ _ _ asked
  rw [key, (orderly_of_reviewed portRelapsed_reachable).keyed .port "a" p found] at met
  cases met.symm.trans found
  exact denied accepted

end HostPorts
