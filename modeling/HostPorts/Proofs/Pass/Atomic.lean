import HostPorts.Proofs.Pass.Runs
import HostPorts.Proofs.Pass.Strokes

/-!
Passes cut short by failures. Any of the requests of a pass may fail without having reached the
store. However that goes, a pass rewrites at most the one object that it is over, with its last
request and only if it then succeeds; besides, a claim may get its backing port. So a pass that
fails leaves all objects as they were and can be repeated (`passes_are_atomic`).
-/
namespace HostPorts

/-- Whether it is there to alter a stored object or to take it away. -/
def Request.isRewrite : Request → Bool
  | .updateStatus .. | .updateFinalizers .. | .deletePort _ => true
  | _ => false

structure Asked where
  request : Request
  before : Store
  after : Store

structure Attempt where
  store : Store
  asked : List Asked := []

/-- The n-th request, counted from 0, fails with the error `fault n` if there is one. -/
def Attempt.answer (later : Timestamp) (fault : Nat → Option StoreError) (r : Request)
    (a : Attempt) : r.Reply × Attempt :=
  let answered : r.Reply × Store :=
    match fault a.asked.length with
    | some e => (.error e, a.store)
    | none => a.store.answer later r
  (answered.1, ⟨answered.2, a.asked ++ [⟨r, a.store, answered.2⟩]⟩)

namespace Store

/-- The claim under that key gets its backing port, and nothing else changes. -/
inductive GainsPort (s s' : Store) (key : String) : Prop where
  | made {c : PortClaim} {ns uid : String} {i : Identity}
      (here : s.find .portClaim key = some c) (within : c.metadata.namespace_ = some ns)
      (identity : c.metadata.uid = some uid) (free : s.find .port (portNameForClaim uid) = none)
      (puts : s.Puts s' .port (portNameForClaim uid) (some ((c.backingPort ns uid).identified i)))

/-- The request changes one object and nothing of it but its status, its finalizers or its mark of
deletion, besides the version; or it takes the object away. -/
inductive Rewrites (s s' : Store) : Request → (k : Kind) → String → Prop where
  | status {k : Kind} {key : String} {old o : Object k} (here : s.find k key = some old)
      (puts : s.Puts s' k key (old.withStatusOf o s.nextVersion).kept) :
      Rewrites s s' (.updateStatus k o) k key
  | finalizers {k : Kind} {key : String} {old o : Object k} (here : s.find k key = some old)
      (puts : s.Puts s' k key (old.withFinalizersOf o s.nextVersion).kept) :
      Rewrites s s' (.updateFinalizers k o) k key
  | marked {key : String} {old p : Port} {at_ : Timestamp} (here : s.find .port key = some old)
      (puts : s.Puts s' .port key (some (old.marked at_ s.nextVersion))) :
      Rewrites s s' (.deletePort p) .port key
  | removed {key : String} {old p : Port} (here : s.find .port key = some old)
      (puts : s.Puts s' .port key none) : Rewrites s s' (.deletePort p) .port key

variable {s t u : Store} {key : String}

theorem Unchanged.trans (h : s.Unchanged t) (h' : t.Unchanged u) : s.Unchanged u :=
  ⟨fun k => (h'.table k).trans (h.table k), h'.version.trans h.version, h'.created.trans h.created⟩

theorem Puts.unchanged {k : Kind} {new : Option (Object k)} (h : s.Puts t k key new)
    (same : t.Unchanged u) : s.Puts u k key new where
  here := (same.find k key).trans h.here
  beside key' ne := (same.find k key').trans (h.beside key' ne)
  other k' ne := (same.table k').trans (h.other k' ne)
  version_le := same.version ▸ h.version_le
  created_le := same.created ▸ h.created_le
  fresh o eq := same.version ▸ h.fresh o eq

namespace GainsPort

theorem before (h : t.GainsPort u key) (same : s.Unchanged t) : s.GainsPort u key := by
  obtain ⟨here, within, identity, free, puts⟩ := h
  rw [same.find] at here free
  exact .made here within identity free (same.puts puts)

theorem after (h : s.GainsPort t key) (same : t.Unchanged u) : s.GainsPort u key := by
  obtain ⟨here, within, identity, free, puts⟩ := h
  exact .made here within identity free (puts.unchanged same)

theorem once (h : s.GainsPort t key) : ¬ t.GainsPort u key := by
  obtain ⟨here, _, identity, _, puts⟩ := h
  rintro ⟨here', _, identity', free, _⟩
  rw [puts.find_other (by decide), here] at here'
  cases here'
  cases identity.symm.trans identity'
  rw [puts.here] at free
  contradiction

end GainsPort
end Store

/-- How a pass over the object under that key treats the stored objects, from one store to another
by way of these requests. -/
structure Atomic (k : Kind) (key : String) (s : Store) (asked : List Asked) (s' : Store)
    (outcome : Outcome) : Prop where
  /-- Rewriting is for the last request only. -/
  last : ∀ x ∈ asked.dropLast, x.request.isRewrite = false
  each : ∀ x ∈ asked, x.before.Unchanged x.after ∨
    k = .portClaim ∧ x.before.GainsPort x.after key ∨
      outcome = .ok () ∧ x.before.Rewrites x.after x.request k key
  whole : ∃ t : Store, (s.Unchanged t ∨ k = .portClaim ∧ s.GainsPort t key) ∧
    (t.Unchanged s' ∨ outcome = .ok () ∧ ∃ r, t.Rewrites s' r k key)

namespace Atomic

variable {k : Kind} {key : String} {s t s' : Store} {asked : List Asked} {outcome : Outcome}
  {r : Request}

theorem nothing (s : Store) (outcome : Outcome) : Atomic k key s [] s outcome where
  last x member := by simp at member
  each x member := by simp at member
  whole := ⟨s, Or.inl (.refl s), Or.inl (.refl s)⟩

theorem single (change : s.Unchanged s' ∨ outcome = .ok () ∧ s.Rewrites s' r k key) :
    Atomic k key s [⟨r, s, s'⟩] s' outcome where
  last x member := by simp at member
  each x member := by
    cases List.mem_singleton.mp member
    exact change.imp_right Or.inr
  whole := ⟨s, Or.inl (.refl s), change.imp_right fun ⟨ok, rewrites⟩ => ⟨ok, r, rewrites⟩⟩

theorem cons (rest : Atomic k key t asked s' outcome) (plain : r.isRewrite = false)
    (change : s.Unchanged t ∨ k = .portClaim ∧ s.GainsPort t key) :
    Atomic k key s (⟨r, s, t⟩ :: asked) s' outcome where
  last x member := by
    cases asked with
    | nil => contradiction
    | cons y ys =>
      rcases List.mem_cons.mp member with rfl | later
      · exact plain
      · exact rest.last x later
  each x member := by
    rcases List.mem_cons.mp member with rfl | later
    · exact change.imp_right Or.inl
    · exact rest.each x later
  whole := by
    obtain ⟨u, start, finish⟩ := rest.whole
    refine ⟨u, ?_, finish⟩
    rcases change, start with ⟨same | ⟨claim, gains⟩, same' | ⟨claim', gains'⟩⟩
    · exact Or.inl (same.trans same')
    · exact Or.inr ⟨claim', gains'.before same⟩
    · exact Or.inr ⟨claim, gains.after same'⟩
    · exact absurd gains' gains.once

theorem intact (h : Atomic k key s asked s' outcome) (failed : outcome ≠ .ok ()) :
    ∀ k' key' (o : Object k'), s.find k' key' = some o → s'.find k' key' = some o := by
  obtain ⟨t, start, finish⟩ := h.whole
  have same := finish.resolve_right fun ⟨ok, _⟩ => failed ok
  intro k' key' o found
  rw [same.find]
  rcases start with same' | ⟨_, _, _, _, free, puts⟩
  · rwa [same'.find]
  · exact puts.adds free k' key' o found

end Atomic

namespace Reconcile

inductive Own : {k : Kind} → Object k → Request → Prop where
  | status {k : Kind} {o new : Object k} (only : new = { o with status := new.status }) :
      Own o (.updateStatus k new)
  | finalizers {k : Kind} {o new : Object k}
      (only : new =
        { o with metadata := { o.metadata with finalizers := new.metadata.finalizers } }) :
      Own o (.updateFinalizers k new)
  | delete (p : Port) : Own p (.deletePort p)

/-- What is left of a pass that has read the object, whatever it is told from then on: reads, the
making of the backing port, and a write of the object itself to end with. -/
inductive Modest : {k : Kind} → Object k → Pass Outcome → Prop where
  | done {k : Kind} {o : Object k} (outcome : Outcome) : Modest o (.done outcome)
  | read {k : Kind} {o : Object k} {r : Request} {next : r.Reply → Pass Outcome}
      (isRead : r.isRead = true) (rest : ∀ reply, Modest o (next reply)) : Modest o (.call r next)
  | alone {k : Kind} {o : Object k} {rest : Pass Outcome} (inside : Modest o rest) :
      Modest o (.alone rest)
  | create {c : PortClaim} {ns uid : String}
      {next : (Request.createPort (c.backingPort ns uid)).Reply → Pass Outcome}
      (within : c.metadata.namespace_ = some ns) (identity : c.metadata.uid = some uid)
      (rest : ∀ reply, Modest c (next reply)) :
      Modest c (.call (.createPort (c.backingPort ns uid)) next)
  | commit {k : Kind} {o : Object k} {r : Request} (own : Own o r) : Modest o (commit r)

namespace Modest

variable {k : Kind} {o : Object k}

theorem ask {r : Request} {next : r.Answer → Pass Outcome} (isRead : r.isRead = true)
    (rest : ∀ a, Modest o (next a)) : Modest o (Reconcile.ask r next) := by
  apply Modest.read isRead
  intro reply
  cases reply with
  | ok a => exact rest a
  | error e => exact .done _

theorem find {k' : Kind} {ref : ObjectRef} {next : Option (Object k') → Pass Outcome}
    (rest : ∀ found, Modest o (next found)) : Modest o (Reconcile.find k' ref next) := by
  apply Modest.read rfl
  intro reply
  cases reply with
  | ok found => exact rest (some found)
  | error e =>
    simp only
    split
    · exact rest none
    · exact .done _

theorem checkClaim {r : ClaimReference} {next : Bool → Pass Outcome}
    (rest : ∀ isLive, Modest o (next isLive)) : Modest o (Reconcile.checkClaim r next) :=
  .find fun _ => rest _

theorem writeStatus {new : Object k} (only : new = { o with status := new.status }) :
    Modest o (Reconcile.writeStatus new) := .commit (.status only)

theorem mark (o : Object k) (phase : Phase) :
    Modest o (Reconcile.writeStatus (o.withPhase phase)) := writeStatus (o.withPhase_only phase)

theorem release (o : Object k) : Modest o (Reconcile.release o) :=
  .commit (.finalizers o.released_only)

theorem ensureBackingPort {c : PortClaim} {next : String → Pass Outcome}
    (rest : ∀ portName, Modest c (next portName)) :
    Modest c (Reconcile.ensureBackingPort c next) := by
  unfold Reconcile.ensureBackingPort
  split
  · exact .done _
  · exact .done _
  next ns uid within identity =>
    apply Modest.create within identity
    intro reply
    cases reply with
    | ok p => exact rest _
    | error e =>
      simp only
      split
      · exact rest _
      · exact .done _

theorem finalize {check : Pass Outcome} (checks : Modest o check) :
    Modest o
      (match DeletionStep.plan (o.phase = some .deleting) o.isProtected with
        | .markDeleting => Reconcile.writeStatus (o.withPhase .deleting)
        | .converged => finish
        | .checkDependents => check) := by
  split
  · exact mark o _
  · exact .done _
  · exact checks

end Modest

theorem modest_finalizeClass (c : PortClass) : Modest c (finalizeClass c) := by
  apply Modest.finalize
  apply Modest.ask rfl
  intro pools
  apply Modest.ask rfl
  intro ports
  split
  · exact .release c
  · exact .done _

theorem modest_finalizePool (p : PortPool) : Modest p (finalizePool p) := by
  apply Modest.finalize
  apply Modest.ask rfl
  intro ports
  split
  · exact .release p
  · exact .done _

theorem modest_finalizeClaim (claimPrefix : String) (c : PortClaim) :
    Modest c (finalizeClaim claimPrefix c) := by
  apply Modest.finalize
  apply Modest.ask rfl
  intro pods
  split
  · exact .done _
  · exact .release c

theorem modest_finalizePort (p : Port) : Modest p (finalizePort p) := by
  apply Modest.finalize
  split
  · exact .release p
  · apply Modest.checkClaim
    intro isLive
    split
    · exact .done _
    · exact .release p

theorem modest_checkOverlap (now : Timestamp) (p : PortPool) : Modest p (checkOverlap now p) := by
  unfold checkOverlap
  split
  · exact .writeStatus rfl
  · exact .done _
  · apply Modest.ask rfl
    intro pools
    exact .writeStatus (PortPool.checked_only now p pools)
  · exact .mark p _

theorem modest_healClaim (c : PortClaim) : Modest c (healClaim c) := by
  unfold healClaim
  split
  · exact .done _
  · apply Modest.find
    intro found
    cases found with
    | some p => exact .done _
    | none => exact .ensureBackingPort fun _ => .done _

theorem modest_allocatePort (p : Port) : Modest p (allocatePort p) := by
  apply Modest.ask rfl
  intro _
  apply Modest.alone
  apply Modest.ask rfl
  intro pools
  apply Modest.ask rfl
  intro ports
  split
  · exact .done _
  · exact .writeStatus rfl

theorem modest_reclaimPort (p : Port) : Modest p (reclaimPort p) := by
  unfold reclaimPort
  split
  · exact .done _
  · apply Modest.checkClaim
    intro isLive
    split
    · exact .done _
    · exact .commit (.delete p)

inductive Local (k : Kind) (ref : ObjectRef) : Pass Outcome → Prop where
  | reads {next : Option (Object k) → Pass Outcome} (rests : next none = finish)
      (modest : ∀ o, Modest o (next (some o))) : Local k ref (find k ref next)

theorem pass_local (now : Timestamp) (claimPrefix : String) {k : Kind} (controlled : k ≠ .pod)
    (ref : ObjectRef) : Local k (subject k ref) (pass now claimPrefix k ref) := by
  cases k with
  | portClass =>
    unfold pass portClass
    refine .reads ?_ fun c => ?_
    · rfl
    simp only
    split
    · exact modest_finalizeClass c
    · split
      · exact .mark c _
      · exact .mark c _
      · exact .done _
  | portPool =>
    unfold pass portPool
    refine .reads ?_ fun p => ?_
    · rfl
    simp only
    split
    · exact modest_finalizePool p
    · split
      · exact .mark p _
      · exact modest_checkOverlap now p
      · exact .done _
  | portClaim =>
    unfold pass portClaim
    refine .reads ?_ fun c => ?_
    · rfl
    simp only
    split
    · exact modest_finalizeClaim claimPrefix c
    · split
      · exact .writeStatus rfl
      · exact .ensureBackingPort fun _ => .writeStatus rfl
      · exact modest_healClaim c
      · exact .done _
  | port =>
    unfold pass port
    refine .reads ?_ fun p => ?_
    · rfl
    simp only
    split
    · exact modest_finalizePort p
    · split
      · exact .writeStatus rfl
      · exact modest_allocatePort p
      · exact modest_reclaimPort p
      · exact .done _
  | pod => contradiction

variable {k : Kind} {o : Object k} {key : String} {r : Request}

theorem Own.answered (own : Own o r) (placed : o.PlacedAt key) (later : Timestamp) (s : Store) :
    s.Unchanged (s.answer later r).2 ∨
      (∃ a, (s.answer later r).1 = .ok a) ∧ s.Rewrites (s.answer later r).2 r k key := by
  cases own with
  | @status k o new only =>
    have at_ : new.key = key := by
      rw [only, ← placed.keyed]
      rfl
    rcases Store.updateStatus_outcome new s with ⟨_, _, same⟩ | ⟨old, found, _, ok, _, puts⟩
    · exact Or.inl same
    · rw [at_] at found puts
      exact Or.inr ⟨⟨_, ok⟩, .status found puts⟩
  | @finalizers k o new only =>
    have at_ : new.key = key := by
      rw [only, ← placed.keyed]
      rfl
    rcases Store.updateFinalizers_outcome new s with ⟨_, _, same⟩ | ⟨old, found, _, ok, _, puts⟩
    · exact Or.inl same
    · rw [at_] at found puts
      exact Or.inr ⟨⟨_, ok⟩, .finalizers found puts⟩
  | delete p =>
    have outcome := Store.deletePort_outcome later p s
    rw [placed.displayName] at outcome
    rcases outcome with
      ⟨_, _, same⟩ | ⟨old, found, _, ok, _, ⟨_, puts⟩ | ⟨_, _, puts⟩ | ⟨_, _, same⟩⟩
    · exact Or.inl same
    · exact Or.inr ⟨⟨_, ok⟩, .removed found puts⟩
    · exact Or.inr ⟨⟨_, ok⟩, .marked found puts⟩
    · exact Or.inl same

end Reconcile

namespace Attempt

open Reconcile (Own Modest Local pass subject)

variable {later : Timestamp} {fault : Nat → Option StoreError} {k : Kind} {o : Object k}
  {key : String}

theorem answer_cases (later : Timestamp) (fault : Nat → Option StoreError) (r : Request)
    (a : Attempt) :
    ∃ (reply : r.Reply) (t : Store),
      answer later fault r a = (reply, ⟨t, a.asked ++ [⟨r, a.store, t⟩]⟩) ∧
        ((∃ e, reply = .error e) ∧ t = a.store ∨
          reply = (a.store.answer later r).1 ∧ t = (a.store.answer later r).2) := by
  refine ⟨_, _, rfl, ?_⟩
  cases fault a.asked.length with
  | some e => exact Or.inl ⟨⟨e, rfl⟩, rfl⟩
  | none => exact Or.inr ⟨rfl, rfl⟩

def Proceeds (later : Timestamp) (fault : Nat → Option StoreError) (k : Kind) (key : String)
    (p : Pass Outcome) (a : Attempt) : Prop :=
  ∃ asked, (p.run (answer later fault) a).2.asked = a.asked ++ asked ∧
    Atomic k key a.store asked (p.run (answer later fault) a).2.store
      (p.run (answer later fault) a).1

theorem proceeds_done (outcome : Outcome) (a : Attempt) :
    Proceeds later fault k key (.done outcome) a :=
  ⟨[], (List.append_nil _).symm, .nothing a.store outcome⟩

theorem proceeds_call {r : Request} {next : r.Reply → Pass Outcome} {a : Attempt}
    {reply : r.Reply} {t : Store}
    (answered : answer later fault r a = (reply, ⟨t, a.asked ++ [⟨r, a.store, t⟩]⟩))
    (plain : r.isRewrite = false)
    (change : a.store.Unchanged t ∨ k = .portClaim ∧ a.store.GainsPort t key)
    (rest : Proceeds later fault k key (next reply) ⟨t, a.asked ++ [⟨r, a.store, t⟩]⟩) :
    Proceeds later fault k key (.call r next) a := by
  obtain ⟨asked, record, atomic⟩ := rest
  refine ⟨⟨r, a.store, t⟩ :: asked, ?_, ?_⟩
  · rw [Pass.run, answered, record, List.append_assoc, List.singleton_append]
  · rw [Pass.run, answered]
    exact atomic.cons plain change

theorem proceeds_read {r : Request} {next : r.Reply → Pass Outcome} {a : Attempt}
    (isRead : r.isRead = true)
    (rest : ∀ reply asked, ((∃ e, reply = .error e) ∨ reply = (a.store.answer later r).1) →
      Proceeds later fault k key (next reply) ⟨a.store, asked⟩) :
    Proceeds later fault k key (.call r next) a := by
  obtain ⟨reply, t, answered, told⟩ := answer_cases later fault r a
  have same : t = a.store := by
    rcases told with ⟨_, same⟩ | ⟨_, same⟩
    · exact same
    · rw [same, Store.answer_of_isRead isRead]
  subst same
  have plain : r.isRewrite = false := by cases r <;> first | rfl | contradiction
  exact proceeds_call answered plain (Or.inl (.refl _))
    (rest reply _ (told.imp And.left And.left))

theorem proceeds_commit {r : Request} (own : Own o r) (placed : o.PlacedAt key) (a : Attempt) :
    Proceeds later fault k key (Reconcile.commit r) a := by
  obtain ⟨reply, t, answered, told⟩ := answer_cases later fault r a
  refine ⟨[⟨r, a.store, t⟩], ?_, ?_⟩
  · rw [Reconcile.commit, Reconcile.ask, Pass.run, answered]
    cases reply <;> rfl
  · rw [Reconcile.commit, Reconcile.ask, Pass.run, answered]
    rcases told with ⟨⟨e, rfl⟩, rfl⟩ | ⟨rfl, rfl⟩
    · exact .single (Or.inl (.refl _))
    · rcases own.answered placed later a.store with same | ⟨⟨_, ok⟩, rewrites⟩
      · cases (a.store.answer later r).1 <;> exact .single (Or.inl same)
      · rw [ok]
        exact .single (Or.inr ⟨rfl, rewrites⟩)

theorem proceeds_modest {p : Pass Outcome} (modest : Modest o p) (placed : o.PlacedAt key)
    {a : Attempt} (here : a.store.find k key = some o) : Proceeds later fault k key p a := by
  induction modest generalizing a with
  | done outcome => exact proceeds_done outcome a
  | read isRead _ ih => exact proceeds_read isRead fun reply _ _ => ih reply placed here
  | alone _ ih => exact ih placed here
  | @create c ns uid next within identity _ ih =>
    obtain ⟨reply, t, answered, told⟩ :=
      answer_cases later fault (.createPort (c.backingPort ns uid)) a
    have change : a.store.Unchanged t ∨ a.store.GainsPort t key := by
      rcases told with ⟨_, rfl⟩ | ⟨_, rfl⟩
      · exact Or.inl (.refl _)
      · rcases Store.createPort_cases later (c.backingPort ns uid) a.store with
          same | ⟨free, _, puts⟩
        · exact Or.inl same
        · exact Or.inr (.made here within identity free puts)
    refine proceeds_call answered rfl (change.imp_right fun gains => ⟨rfl, gains⟩) ?_
    apply ih reply placed
    rcases change with same | ⟨_, _, _, _, puts⟩
    · exact (same.find ..).trans here
    · exact (puts.find_other (by decide) key).trans here
  | commit own => exact proceeds_commit own placed a

end Attempt

open Reconcile (pass subject)

/-- Whichever requests of a pass fail, with whatever errors: only its last request may rewrite an
object, just the one that the pass is over; and it does so only if the pass succeeds. All else that
may happen is that a claim gets its backing port. -/
theorem passes_are_atomic {s : Store} (placed : s.Placed) (now later : Timestamp)
    (claimPrefix : String) (k : Kind) (ref : ObjectRef) (fault : Nat → Option StoreError) :
    let (outcome, after) :=
      (pass now claimPrefix k ref).run (Attempt.answer later fault) { store := s }
    Atomic k (subject k ref).key s after.asked after.store outcome ∧
      (outcome ≠ .ok () → ∀ k' key' (o : Object k'),
        s.find k' key' = some o → after.store.find k' key' = some o) := by
  suffices Attempt.Proceeds later fault k (subject k ref).key (pass now claimPrefix k ref)
      { store := s } by
    obtain ⟨asked, record, atomic⟩ := this
    rw [List.nil_append] at record
    rw [← record] at atomic
    exact ⟨atomic, atomic.intact⟩
  by_cases controlled : k = .pod
  · subst controlled
    exact Attempt.proceeds_done _ _
  · have reads := Reconcile.pass_local now claimPrefix controlled ref
    generalize pass now claimPrefix k ref = p at reads ⊢
    obtain ⟨rests, modest⟩ := reads
    refine Attempt.proceeds_read rfl fun reply asked told => ?_
    cases reply with
    | error e =>
      simp only
      split
      · rw [rests]
        exact Attempt.proceeds_done _ _
      · exact Attempt.proceeds_done _ _
    | ok o =>
      have found := Store.find_of_get (told.resolve_left nofun).symm
      exact Attempt.proceeds_modest (modest o) (placed k _ o controlled found) found

open Cluster (noon)

def pendingClaim : Store :=
  (Store.insert noon (k := .portClaim)
    ⟨{ name := some "web", namespace_ := some "t" }, ⟨"c"⟩, some ⟨some .pending, none⟩⟩ {}).2

def halfBound : Outcome × Attempt :=
  (pass noon "claims" .portClaim ⟨some "t", "web"⟩).run
    (Attempt.answer noon fun n => if n = 2 then some .serialization else none)
    { store := pendingClaim }

theorem passes_are_atomic_half_bound :
    pendingClaim.Placed ∧ halfBound.1 = .error (.store .serialization) ∧
      halfBound.2.store.find .portClaim "t/web" = pendingClaim.find .portClaim "t/web" ∧
      halfBound.2.store.find .port (portNameForClaim (Store.uidOf 1)) ≠ none := by
  have placed : pendingClaim.Placed := .of_entries (by decide +kernel)
  have fails : halfBound.1 = .error (.store .serialization) := rfl
  have failed : halfBound.1 ≠ .ok () := by
    rw [fails]
    exact nofun
  obtain ⟨_, intact⟩ := passes_are_atomic placed noon noon "claims" .portClaim ⟨some "t", "web"⟩
    fun n => if n = 2 then some .serialization else none
  exact ⟨placed, fails, intact failed _ _ _ rfl, by decide +kernel⟩

end HostPorts
