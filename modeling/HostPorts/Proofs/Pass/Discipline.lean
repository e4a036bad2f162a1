import HostPorts.Proofs.Store.History
import HostPorts.Reconcile.Reconciler

/-!
Passes among other passes. Between two requests the store may change under a pass. A discipline
says what a pass may rely on meanwhile, what each of its own requests promises in return, and with
which errors a request may come back without having reached the store. A safe pass keeps the
invariant of its discipline whatever comes between its requests; run without interruption, it keeps
it as well.
-/
namespace HostPorts

/-- Where a pass stands towards the lock on allocation. -/
inductive Section where
  | outside
  | entered
  /-- Inside, with these pools as the last listing of pools. -/
  | offered (pools : List PortPool)

namespace Section

def isInside : Section → Bool
  | .outside => false
  | _ => true

def after : Section → (r : Request) → r.Reply → Section
  | .outside, _, _ => .outside
  | _, .list .portPool, .ok pools => .offered pools
  | sec, _, _ => sec

@[simp] theorem outside_after (r : Request) (reply : r.Reply) :
    Section.outside.after r reply = .outside := rfl

end Section

structure Discipline where
  inv : Store → Prop
  /-- What happens to the store between two requests of a pass. -/
  rely : Section → Store → Store → Prop
  /-- What a request of a pass does to the store. -/
  promise : Section → Store → Store → Prop
  rely_refl : ∀ sec s, rely sec s s
  rely_trans : ∀ {sec s s' s''}, inv s → inv s' → rely sec s s' → rely sec s' s'' → rely sec s s''
  rely_outside : ∀ {sec s s'}, rely sec s s' → rely .outside s s'
  promise_refl : ∀ sec s, promise sec s s
  inv_orderly : ∀ {s}, inv s → s.Orderly
  rely_evolves : ∀ {sec s s'}, rely sec s s' → s.Evolves s'
  /-- Errors of requests that do not reach the store. -/
  fault : Request → StoreError → Prop := fun _ _ => False

namespace Discipline

variable {D : Discipline} {α : Type} {sec : Section} {s s' : Store}

def Keeps (D : Discipline) (sec : Section) (s s' : Store) : Prop := D.inv s' ∧ D.promise sec s s'

/-- Whatever comes in between, each request of the pass keeps the invariant and its promise. -/
def Safe (D : Discipline) : Pass α → Section → Store → Prop
  | .done _, _, _ => True
  | .call r next, sec, s => ∀ s', D.inv s' → D.rely sec s s' →
      (∀ now, D.Keeps sec s' (Store.answer now r s').2 ∧
        D.Safe (next (Store.answer now r s').1) (sec.after r (Store.answer now r s').1)
          (Store.answer now r s').2) ∧
      ∀ e, D.fault r e → D.Safe (next (.error e)) (sec.after r (.error e)) s'
  | .alone rest, sec, s => ∀ s', D.inv s' → D.rely sec s s' → D.Safe rest .entered s'

theorem Safe.stable {p : Pass α} (h : D.Safe p sec s) (valid : D.inv s) (valid' : D.inv s')
    (drift : D.rely sec s s') : D.Safe p sec s' := by
  cases p with
  | done a => trivial
  | call r next =>
    intro t validT later
    exact h t validT (D.rely_trans valid valid' drift later)
  | alone rest =>
    intro t validT later
    exact h t validT (D.rely_trans valid valid' drift later)

theorem Safe.run (now : Timestamp) {p : Pass α} (h : D.Safe p sec s) (valid : D.inv s) :
    D.inv (s.run now p).2 := by
  induction p generalizing sec s with
  | done a => exact valid
  | call r next ih =>
    obtain ⟨⟨kept, _⟩, rest⟩ := (h s valid (D.rely_refl sec s)).1 now
    exact ih _ rest kept
  | alone rest ih => exact ih (h s valid (D.rely_refl sec s)) valid

theorem safe_read {r : Request} {next : r.Reply → Pass α} (read : r.isRead = true)
    (h : ∀ s', D.inv s' → D.rely sec s s' →
      (∀ now, D.Safe (next (Store.answer now r s').1) (sec.after r (Store.answer now r s').1) s') ∧
      ∀ e, D.fault r e → D.Safe (next (.error e)) (sec.after r (.error e)) s') :
    D.Safe (.call r next) sec s := by
  intro s' valid drift
  refine ⟨?_, (h s' valid drift).2⟩
  intro now
  have same := Store.answer_of_isRead read now s'
  have rest := (h s' valid drift).1 now
  refine ⟨⟨?_, ?_⟩, ?_⟩
  · rw [same]
    exact valid
  · rw [same]
    exact D.promise_refl sec s'
  · rwa [same]

theorem safe_finish : D.Safe Reconcile.finish sec s := trivial

theorem safe_commit {r : Request}
    (h : ∀ s', D.inv s' → D.rely sec s s' → ∀ now, D.Keeps sec s' (Store.answer now r s').2) :
    D.Safe (Reconcile.commit r) sec s := by
  intro s' valid drift
  refine ⟨?_, fun _ _ => trivial⟩
  intro now
  refine ⟨h s' valid drift now, ?_⟩
  cases (Store.answer now r s').1 with
  | ok a => trivial
  | error e => trivial

/-- What a look-up may be told: what is stored, or nothing if it fails with that. -/
def Told (D : Discipline) {k : Kind} (ref : ObjectRef) (s : Store) (found : Option (Object k)) :
    Prop :=
  found = s.find k ref.key ∨
    found = none ∧ ∃ e, D.fault (.get k ref) e ∧ e.isNotFound = true

theorem Told.stored {k : Kind} {ref : ObjectRef} {o : Object k} (h : D.Told ref s (some o)) :
    s.find k ref.key = some o := by
  rcases h with is | ⟨impossible, _⟩
  · exact is.symm
  · contradiction

theorem safe_find {k : Kind} {ref : ObjectRef} {next : Option (Object k) → Pass Outcome}
    (h : ∀ s', D.inv s' → D.rely .outside s s' → ∀ found, D.Told ref s' found →
      D.Safe (next found) .outside s') :
    D.Safe (Reconcile.find k ref next) .outside s := by
  apply safe_read rfl
  intro s' valid drift
  constructor
  · intro now
    have rest := h s' valid drift _ (Or.inl rfl)
    simp only [Store.answer, Table.get]
    simp only [Store.find] at rest
    cases found : (s'.table k).find? ref.key with
    | some o => rwa [found] at rest
    | none => rwa [found] at rest
  · intro e fault
    simp only
    split
    next missing => exact h s' valid drift none (Or.inr ⟨rfl, e, fault, missing⟩)
    next => trivial

theorem safe_ask_get {k : Kind} {ref : ObjectRef} {next : Object k → Pass Outcome}
    (h : ∀ s' o, D.inv s' → D.rely .outside s s' → s'.find k ref.key = some o →
      D.Safe (next o) .outside s') :
    D.Safe (Reconcile.ask (.get k ref) next) .outside s := by
  apply safe_read rfl
  intro s' valid drift
  refine ⟨?_, fun _ _ => trivial⟩
  intro now
  simp only [Store.answer, Table.get]
  cases found : (s'.table k).find? ref.key with
  | some o => exact h s' o valid drift found
  | none => trivial

theorem safe_ask_list {k : Kind} {next : List (Object k) → Pass Outcome}
    (h : ∀ s', D.inv s' → D.rely sec s s' →
      D.Safe (next (s'.table k).values) (sec.after (.list k) (.ok (s'.table k).values)) s') :
    D.Safe (Reconcile.ask (.list k) next) sec s :=
  safe_read rfl fun s' valid drift => ⟨fun _ => h s' valid drift, fun _ _ => trivial⟩

theorem safe_ask_listPods {ns : String} {next : List Pod → Pass Outcome}
    (h : ∀ s', D.inv s' → D.rely .outside s s' →
      D.Safe (next (s'.pods.values.filter fun p => p.metadata.namespace_ = some ns)) .outside s') :
    D.Safe (Reconcile.ask (.listPods ns) next) .outside s :=
  safe_read rfl fun s' valid drift => ⟨fun _ => h s' valid drift, fun _ _ => trivial⟩

/-- It held of the store at some moment up to now. -/
def Once (D : Discipline) (P : Store → Prop) (s : Store) : Prop :=
  ∃ s₀, D.inv s₀ ∧ P s₀ ∧ D.rely .outside s₀ s

def Seen (D : Discipline) {k : Kind} (o : Object k) (s : Store) : Prop :=
  D.Once (fun s₀ => s₀.find k o.key = some o) s

theorem Once.now {P : Store → Prop} (valid : D.inv s) (holds : P s) : D.Once P s :=
  ⟨s, valid, holds, D.rely_refl .outside s⟩

theorem Once.later {P : Store → Prop} (h : D.Once P s) (valid : D.inv s)
    (drift : D.rely sec s s') : D.Once P s' := by
  obtain ⟨s₀, valid₀, holds, before⟩ := h
  exact ⟨s₀, valid₀, holds, D.rely_trans valid₀ valid before (D.rely_outside drift)⟩

variable {k : Kind} {o : Object k} {key : String}

theorem Seen.of_find (valid : D.inv s) (found : s.find k key = some o) : D.Seen o s := by
  apply Once.now valid
  rwa [(D.inv_orderly valid).keyed k key o found]

theorem Seen.later (h : D.Seen o s) (valid : D.inv s) (drift : D.rely sec s s') : D.Seen o s' :=
  Once.later h valid drift

theorem Seen.known (h : D.Seen o s) : s.Known o := by
  obtain ⟨s₀, valid₀, found, before⟩ := h
  exact (Store.Known.of_find (D.inv_orderly valid₀) found).mono (D.rely_evolves before)

end Discipline
end HostPorts
