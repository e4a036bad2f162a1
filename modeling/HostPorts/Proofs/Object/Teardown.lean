import HostPorts.Proofs.Pass.Termination
import HostPorts.Scenario.Step
import Mathlib.Logic.Function.Iterate

/-!
Teardown. Once all classes, pools and claims are under deletion, rounds of passes take everything
away: the claims first, then the ports that were made for them, then pools and classes. In each
round an object comes one write nearer to its end (`writesAhead`) unless it waits for objects of
other kinds; so bounds for the kinds give bounds for the round after (`Bounds.round`), and those are
zero after six rounds (`teardown_completes`). A failure that is armed costs one pass, and with it
one round at most.
-/
namespace HostPorts

def Kind.waitsFor : Kind → List Kind
  | .portClass => [.portPool, .port]
  | .portPool => [.port]
  | .portClaim => [.pod]
  | .port => [.portClaim]
  | .pod => []

theorem Kind.token_of_controlled {k : Kind} (controlled : k ≠ .pod) :
    ∃ token, k.token? = some token := by
  cases k <;> first | exact ⟨_, rfl⟩ | contradiction

namespace Object

def HasOwner : {k : Kind} → Object k → Prop
  | .port, p => p.spec.claimRef ≠ none
  | _, _ => False

/-- Under deletion or, if made for a claim, settled; and held by its own token alone. -/
structure Leaving {k : Kind} (o : Object k) : Prop where
  ends : o.isBeingDeleted = true ∨ o.phase = some .settled ∧ o.HasOwner
  tokens : ∀ token ∈ k.token?, ∀ f ∈ o.metadata.finalizerList, f = token.text
  held : o.isBeingDeleted = true → o.metadata.finalizerList ≠ []

instance {k : Kind} (o : Object k) : Decidable o.HasOwner := by
  cases k <;> simp only [HasOwner] <;> infer_instance

instance {k : Kind} (o : Object k) : Decidable o.Leaving :=
  decidable_of_iff
    ((o.isBeingDeleted = true ∨ o.phase = some .settled ∧ o.HasOwner) ∧
      (∀ token ∈ k.token?, ∀ f ∈ o.metadata.finalizerList, f = token.text) ∧
      (o.isBeingDeleted = true → o.metadata.finalizerList ≠ []))
    ⟨fun ⟨ends, tokens, held⟩ => ⟨ends, tokens, held⟩, fun h => ⟨h.ends, h.tokens, h.held⟩⟩

namespace Leaving

variable {k : Kind} {o : Object k}

theorem settled (h : o.Leaving) (live : o.isBeingDeleted = false) :
    o.phase = some .settled ∧ o.HasOwner :=
  h.ends.resolve_left (by simp [live])

theorem isProtected (controlled : k ≠ .pod) (h : o.Leaving) (deleted : o.isBeingDeleted = true) :
    o.isProtected = true := by
  obtain ⟨token, own⟩ := Kind.token_of_controlled controlled
  exact isProtected_of_tokens own (h.held deleted) (h.tokens token own)

theorem kept_released (controlled : k ≠ .pod) (h : o.Leaving) (deleted : o.isBeingDeleted = true)
    (version : String) : (o.released.withVersion version).kept = none := by
  obtain ⟨token, own⟩ := Kind.token_of_controlled controlled
  exact Object.kept_released own deleted (h.tokens token own) version

theorem writesAhead_pos (controlled : k ≠ .pod) (h : o.Leaving) : 0 < o.writesAhead := by
  cases deleted : o.isBeingDeleted with
  | true =>
    have held := h.isProtected controlled deleted
    simp only [writesAhead, deleted, held, if_true]
    split <;> decide
  | false => simp [writesAhead, deleted, (h.settled deleted).1]

theorem marked {p : Port} (h : p.Leaving) (held : p.metadata.finalizerList ≠ [])
    (now : Timestamp) (version : String) : (p.marked now version).Leaving :=
  ⟨Or.inl rfl, h.tokens, fun _ => held⟩

end Leaving
end Object

namespace Store

variable {claimPrefix : String} {s s' t : Store} {k : Kind} {key : String} {o : Object k}

/-- All objects but pods are on their way out, and no pod uses a claim. -/
structure TornDown (claimPrefix : String) (s : Store) : Prop where
  placed : s.Placed
  leaving : ∀ k key (o : Object k), k ≠ .pod → s.find k key = some o → o.Leaving
  unused : ∀ key (c : PortClaim), s.find .portClaim key = some c → ¬ s.HasDependent claimPrefix c

theorem hasDependent_of_same (same : ∀ w ∈ k.waitsFor, s'.table w = s.table w)
    (dependent : s'.HasDependent claimPrefix o) : s.HasDependent claimPrefix o := by
  have found : ∀ w ∈ k.waitsFor, ∀ key, s'.find w key = s.find w key := by
    intro w waits key
    rw [find, find, same w waits]
  cases k with
  | portClass =>
    have pools := found .portPool (by decide)
    have ports := found .port (by decide)
    simpa only [HasDependent, pools, ports] using dependent
  | portPool =>
    have ports := found .port (by decide)
    simpa only [HasDependent, ports] using dependent
  | portClaim =>
    have pods := found .pod (by decide)
    simpa only [HasDependent, pods] using dependent
  | port =>
    have claims := found .portClaim (by decide)
    simpa only [HasDependent, hasClaim, claims] using dependent
  | pod => exact dependent

theorem TornDown.of_unchanged (h : s.TornDown claimPrefix) (same : s.Unchanged s') :
    s'.TornDown claimPrefix := by
  refine ⟨h.placed.of_unchanged same, ?_, ?_⟩
  · intro k key o controlled found
    exact h.leaving k key o controlled ((same.find k key).symm.trans found)
  · intro key c found dependent
    apply h.unused key c ((same.find .portClaim key).symm.trans found)
    exact hasDependent_of_same (fun w _ => same.table w) dependent

theorem hasDependent_of_succeeds {c c' : PortClaim} (succeeds : c'.Succeeds c)
    (named : c.metadata.name ≠ none) (dependent : s.HasDependent claimPrefix c') :
    s.HasDependent claimPrefix c := by
  obtain ⟨name, is⟩ := Option.ne_none_iff_exists'.mp named
  have shown : c'.displayName = c.displayName := by
    simp [Object.displayName, Metadata.displayName, succeeds.name, is]
  obtain ⟨key, pod, found, within, used⟩ := dependent
  exact ⟨key, pod, found, succeeds.namespace_ ▸ within, shown ▸ used⟩

theorem TornDown.of_puts (h : s.TornDown claimPrefix) (controlled : k ≠ .pod)
    {new : Option (Object k)} (puts : s.Puts s' k key new) (found : s.find k key = some o)
    (heir : ∀ x, new = some x → x.Succeeds o ∧ x.Leaving) : s'.TornDown claimPrefix := by
  refine ⟨h.placed.of_next puts found fun x eq => (heir x eq).1, ?_, ?_⟩
  · intro k' key' x controlled' found'
    exact puts.entries (P := fun k key x => k ≠ .pod → x.Leaving) (fun x eq _ => (heir x eq).2)
      (fun k key x found controlled => h.leaving k key x controlled found) k' key' x found'
      controlled'
  · intro key' c found' dependent
    have pods : ∀ w ∈ Kind.waitsFor .portClaim, s'.table w = s.table w := by
      intro w pod
      rw [List.mem_singleton.mp pod]
      exact puts.other .pod controlled.symm
    have before := hasDependent_of_same pods dependent
    by_cases kinds : k = .portClaim
    · subst kinds
      rcases puts.find_same found' with ⟨_, eq⟩ | ⟨_, old⟩
      · have named := (h.placed .portClaim key o controlled found).named
        exact h.unused key o found (hasDependent_of_succeeds (heir c eq).1 named before)
      · exact h.unused key' c old before
    · rw [puts.find_other (Ne.symm kinds)] at found'
      exact h.unused key' c found' before

end Store

def Outcome.failed (outcome : Outcome) : Nat :=
  match outcome with
  | .ok () => 0
  | .error _ => 1

namespace Store

/-- What passes over these keys do to a store that is torn down: where none of them fails, each
object there is nearer to its end, or has to wait with a write that is not its next but last. -/
structure Passed (claimPrefix : String) (k : Kind) (keys : List String) (s s' : Store)
    (failures : Nat) : Prop where
  torn : s'.TornDown claimPrefix
  balance : failures + s'.failNextStatusWrite.toNat = s.failNextStatusWrite.toNat
  beside : ∀ k', k' ≠ k → s'.table k' = s.table k'
  others : ∀ key ∉ keys, s'.find k key = s.find k key
  heir : ∀ key (o' : Object k), s'.find k key = some o' → ∃ o, s.find k key = some o ∧
    o'.writesAhead ≤ o.writesAhead ∧ (key ∈ keys → failures = 0 →
      s.HasDependent claimPrefix o ∧ o.writesAhead ≠ 2 ∨ o'.writesAhead < o.writesAhead)

variable {claimPrefix : String} {s s' t : Store} {k : Kind} {key : String} {o : Object k}

namespace Passed

theorem none_over (torn : s.TornDown claimPrefix) : Passed claimPrefix k [] s s 0 where
  torn := torn
  balance := Nat.zero_add _
  beside _ _ := rfl
  others _ _ := rfl
  heir key o' found := ⟨o', found, Nat.le_refl _, fun among => by simp at among⟩

theorem waits (torn : s.TornDown claimPrefix)
    (idle : ∀ o : Object k, s.find k key = some o →
      s.HasDependent claimPrefix o ∧ o.writesAhead ≠ 2) : Passed claimPrefix k [key] s s 0 where
  torn := torn
  balance := Nat.zero_add _
  beside _ _ := rfl
  others _ _ := rfl
  heir key' o' found := by
    refine ⟨o', found, Nat.le_refl _, fun among _ => Or.inl ?_⟩
    rw [List.mem_singleton] at among
    subst among
    exact idle o' found

theorem fails (torn : s.TornDown claimPrefix) (armed : s.failNextStatusWrite = true) :
    Passed claimPrefix k [key] s { s with failNextStatusWrite := false } 1 where
  torn := torn.of_unchanged ⟨fun k => by cases k <;> rfl, rfl, rfl⟩
  balance := by rw [armed]; rfl
  beside k' _ := by cases k' <;> rfl
  others _ _ := by cases k <;> rfl
  heir key' o' found := by
    refine ⟨o', ?_, Nat.le_refl _, fun _ => by simp⟩
    cases k <;> exact found

theorem of_puts (torn : s.TornDown claimPrefix) (controlled : k ≠ .pod)
    (found : s.find k key = some o) {new : Option (Object k)} (puts : s.Puts s' k key new)
    (armed : s'.failNextStatusWrite = s.failNextStatusWrite)
    (heir : ∀ x, new = some x →
      x.Succeeds o ∧ x.Leaving ∧ x.writesAhead < o.writesAhead) :
    Passed claimPrefix k [key] s s' 0 where
  torn := torn.of_puts controlled puts found fun x eq => ⟨(heir x eq).1, (heir x eq).2.1⟩
  balance := by rw [armed, Nat.zero_add]
  beside := puts.other
  others key' apart := puts.beside key' (by simpa using apart)
  heir key' o' found' := by
    rcases puts.find_same found' with ⟨rfl, eq⟩ | ⟨apart, old⟩
    · have fewer := (heir o' eq).2.2
      exact ⟨o, found, Nat.le_of_lt fewer, fun _ _ => Or.inr fewer⟩
    · exact ⟨o', old, Nat.le_refl _, fun among => absurd (List.mem_singleton.mp among) apart⟩

theorem append {keys keys' : List String} {m n : Nat} (h : Passed claimPrefix k keys s s' m)
    (h' : Passed claimPrefix k keys' s' t n) :
    Passed claimPrefix k (keys ++ keys') s t (m + n) where
  torn := h'.torn
  balance := by
    have := h.balance
    have := h'.balance
    omega
  beside k' ne := (h'.beside k' ne).trans (h.beside k' ne)
  others key apart := by
    rw [List.mem_append, not_or] at apart
    exact (h'.others key apart.2).trans (h.others key apart.1)
  heir key x found := by
    obtain ⟨o', found', le', next'⟩ := h'.heir key x found
    obtain ⟨o, found, le, next⟩ := h.heir key o' found'
    refine ⟨o, found, Nat.le_trans le' le, ?_⟩
    intro among none
    by_cases first : key ∈ keys
    · rcases next first (by omega) with waits | fewer
      · exact Or.inl waits
      · exact Or.inr (Nat.lt_of_le_of_lt le' fewer)
    · -- the first passes left the object to the later ones
      have same := h.others key first
      rw [found, found'] at same
      cases same
      rcases next' ((List.mem_append.mp among).resolve_left first) (by omega) with
        ⟨dependent, apart⟩ | fewer
      · refine Or.inl ⟨hasDependent_of_same (fun w waits => h.beside w ?_) dependent, apart⟩
        rintro rfl
        revert waits
        cases w <;> decide
      · exact Or.inr fewer

end Passed

open Reconcile (StatusWrite Idle Due)

theorem waits_of_idle {outcome : Outcome} (controlled : k ≠ .pod) (leaving : o.Leaving)
    (idle : Idle claimPrefix s o outcome) :
    outcome = .ok () ∧ s.HasDependent claimPrefix o ∧ o.writesAhead ≠ 2 := by
  cases idle with
  | released deleted _ free =>
    rw [leaving.isProtected controlled deleted] at free
    contradiction
  | needed deleted marked dependent =>
    refine ⟨rfl, dependent, ?_⟩
    simp [Object.writesAhead, deleted, marked, leaving.isProtected controlled deleted]
  | settled kinds live =>
    have owned := (leaving.settled live).2
    rcases kinds with rfl | rfl <;> exact owned.elim
  | overlapping live | backed live | incomplete live => exact (leaving.settled live).2.elim
  | classless live waiting | unserved live waiting =>
    rw [(leaving.settled live).1] at waiting
    contradiction
  | @owned p live settled owner =>
    obtain ⟨r, is⟩ := Option.ne_none_iff_exists'.mp (leaving.settled live).2
    exact ⟨rfl, ⟨r, is, owner r is⟩, by simp [Object.writesAhead, live, settled]⟩
  | misplaced _ live marked =>
    rw [(leaving.settled live).1] at marked
    contradiction

theorem passed_statusWrite {now : Timestamp} {new : Object k} (torn : s.TornDown claimPrefix)
    (controlled : k ≠ .pod) (found : s.find k o.key = some o) (write : StatusWrite now s o new)
    (later : Timestamp) :
    Passed claimPrefix k [o.key] s (s.run later (Reconcile.writeStatus new)).2
      (Outcome.failed (s.run later (Reconcile.writeStatus new)).1) := by
  rcases Reconcile.run_statusWrite later write found with
    ⟨armed, fails⟩ | ⟨unarmed, ok, still, puts⟩
  · rw [fails]
    exact .fails torn armed
  · have leaving := torn.leaving k _ o controlled found
    have deleted : o.isBeingDeleted = true := by
      cases deleted : o.isBeingDeleted with
      | true => rfl
      | false =>
        rcases write.early deleted with phase | phase <;>
          simp [(leaving.settled deleted).1] at phase
    have finalizers : (new.withVersion s.nextVersion).metadata.finalizerList =
        o.metadata.finalizerList := by
      rw [write.only]
      rfl
    have leaving' : (new.withVersion s.nextVersion).Leaving := by
      refine ⟨Or.inl ((write.isBeingDeleted _).trans deleted), ?_, ?_⟩
      · rw [finalizers]
        exact leaving.tokens
      · rw [finalizers]
        exact fun _ => leaving.held deleted
    have kept := Object.kept_of_held (leaving'.held ((write.isBeingDeleted _).trans deleted))
    rw [kept] at puts
    rw [ok]
    refine .of_puts torn controlled found puts (still.trans unarmed.symm) ?_
    intro x eq
    cases eq
    refine ⟨write.succeeds _, leaving', ?_⟩
    rw [Object.writesAhead_withVersion]
    exact Object.writesAhead_lt write

theorem passed_release (torn : s.TornDown claimPrefix) (controlled : k ≠ .pod)
    (found : s.find k o.key = some o) (deleted : o.isBeingDeleted = true) (later : Timestamp) :
    Passed claimPrefix k [o.key] s (s.run later (Reconcile.release o)).2
      (Outcome.failed (s.run later (Reconcile.release o)).1) := by
  obtain ⟨ok, armed, puts⟩ := Reconcile.run_release later found
  have leaving := torn.leaving k _ o controlled found
  rw [leaving.kept_released controlled deleted] at puts
  rw [ok]
  exact .of_puts torn controlled found puts armed (by simp)

theorem passed_reclaim {p : Port} (torn : s.TornDown claimPrefix)
    (found : s.find .port p.key = some p) (live : p.isBeingDeleted = false)
    (settled : p.phase = some .settled) (later : Timestamp) :
    Passed claimPrefix .port [p.key] s (s.run later (Reconcile.commit (.deletePort p))).2
      (Outcome.failed (s.run later (Reconcile.commit (.deletePort p))).1) := by
  have shown := (torn.placed .port _ p (by decide) found).displayName
  have here := found
  rw [← shown] at here
  obtain ⟨ok, armed, change⟩ := Store.deletePort_puts later here live
  rw [shown] at change
  rw [Reconcile.run_commit_ok (r := .deletePort p) ok, Reconcile.run_commit]
  rcases change with ⟨_, puts⟩ | ⟨held, puts⟩
  · exact .of_puts torn (by decide) found puts armed (by simp)
  · refine .of_puts torn (by decide) found puts armed ?_
    intro x eq
    cases eq
    have leaving := torn.leaving .port _ p (by decide) found
    have settled' : (p.marked later s.nextVersion).phase = some .settled := settled
    have deleted : (p.marked later s.nextVersion).isBeingDeleted = true := rfl
    refine ⟨p.marked_succeeds .., leaving.marked held .., ?_⟩
    simp [Object.writesAhead, live, settled, deleted, settled']

theorem passed_pass (torn : s.TornDown claimPrefix) (controlled : k ≠ .pod) {ref : ObjectRef}
    (looks : (Reconcile.subject k ref).key = key) (now later : Timestamp) :
    Passed claimPrefix k [key] s (s.run later (Reconcile.pass now claimPrefix k ref)).2
      (Outcome.failed (s.run later (Reconcile.pass now claimPrefix k ref)).1) := by
  subst looks
  cases stored : s.find k (Reconcile.subject k ref).key with
  | none =>
    rw [Reconcile.run_pass_absent now later claimPrefix (Or.inr stored)]
    exact .waits torn (by simp [stored])
  | some o =>
    have leaving := torn.leaving k _ o controlled stored
    have keyed := (torn.placed k _ o controlled stored).keyed
    obtain ⟨rest, due, comes⟩ := Reconcile.comes_to_due now later claimPrefix controlled stored
    rw [comes]
    rw [← keyed] at stored ⊢
    cases due with
    | idle idle =>
      obtain ⟨rfl, waits⟩ := waits_of_idle controlled leaving idle
      refine .waits torn ?_
      intro o' stored'
      cases stored.symm.trans stored'
      exact waits
    | status write => exact passed_statusWrite torn controlled stored write later
    | release deleted => exact passed_release torn controlled stored deleted later
    | bind live | restore live => exact (leaving.settled live).2.elim
    | reclaim live settled => exact passed_reclaim torn stored live settled later

end Store

/-- How many writes the objects of each kind have ahead of them at most. -/
abbrev Bounds := Kind → Nat

namespace Bounds

/-- A turn of the kind takes one write away from all its objects if none waits for anything. The
next but last write is the mark of deletion, for which nothing waits. -/
def turn (b : Bounds) (k : Kind) : Bounds := fun k' =>
  if k' = k ∧ (b k = 2 ∨ ∀ w ∈ k.waitsFor, b w = 0) then b k - 1 else b k'

def round (b : Bounds) : Bounds := Kind.reconciled.foldl turn b

def atStart : Bounds
  | .port => 3
  | .pod => 0
  | _ => 2

theorem round_six (k : Kind) : round^[6] atStart k = 0 := by
  cases k <;> decide +kernel

end Bounds

namespace Store

variable {claimPrefix : String} {s s' : Store} {k : Kind} {key : String} {o : Object k}
  {b : Bounds}

def Bounded (s : Store) (b : Bounds) : Prop :=
  ∀ k key (o : Object k), k ≠ .pod → s.find k key = some o → o.writesAhead ≤ b k

theorem TornDown.bounded (torn : s.TornDown claimPrefix) : s.Bounded .atStart := by
  intro k key o controlled found
  have leaving := torn.leaving k key o controlled found
  cases deleted : o.isBeingDeleted with
  | true =>
    have two : o.writesAhead ≤ 2 := by
      simp only [Object.writesAhead, deleted, if_true]
      repeat' split
      all_goals decide
    cases k with
    | pod => contradiction
    | port => exact Nat.le_succ_of_le two
    | _ => exact two
  | false =>
    obtain ⟨settled, owned⟩ := leaving.settled deleted
    cases k with
    | port => simp [Object.writesAhead, deleted, settled, Bounds.atStart]
    | _ => exact owned.elim

theorem TornDown.none_of_bounded (torn : s.TornDown claimPrefix) (bounded : s.Bounded b)
    (controlled : k ≠ .pod) (zero : b k = 0) (key : String) : s.find k key = none := by
  cases found : s.find k key with
  | none => rfl
  | some o =>
    have pos := (torn.leaving k key o controlled found).writesAhead_pos controlled
    have le := bounded k key o controlled found
    omega

theorem TornDown.clear (torn : s.TornDown claimPrefix) (bounded : s.Bounded b)
    (zero : ∀ w ∈ k.waitsFor, b w = 0) (found : s.find k key = some o) :
    ¬ s.HasDependent claimPrefix o := by
  have gone : ∀ w ∈ k.waitsFor, w ≠ .pod → ∀ key, s.find w key = none := fun w waits controlled =>
    torn.none_of_bounded bounded controlled (zero w waits)
  cases k with
  | portClass =>
    have pools := gone .portPool (by decide) (by decide)
    have ports := gone .port (by decide) (by decide)
    simp [HasDependent, pools, ports]
  | portPool =>
    have ports := gone .port (by decide) (by decide)
    simp [HasDependent, ports]
  | portClaim => exact torn.unused key o found
  | port =>
    have claims := gone .portClaim (by decide) (by decide)
    simp [HasDependent, hasClaim, claims]
  | pod => exact id

namespace Passed

variable {keys : List String} {n : Nat}

theorem bounded (h : Passed claimPrefix k keys s s' n) (bounded : s.Bounded b) :
    s'.Bounded b := by
  intro k' key o' controlled found
  by_cases kinds : k' = k
  · subst kinds
    obtain ⟨o, before, le, _⟩ := h.heir key o' found
    exact Nat.le_trans le (bounded k' key o controlled before)
  · rw [find, h.beside k' kinds] at found
    exact bounded k' key o' controlled found

/-- Passes over all objects of a kind are a turn of it, if none fails. -/
theorem turn (torn : s.TornDown claimPrefix) (h : Passed claimPrefix k keys s s' 0)
    (all : ∀ key (o : Object k), s.find k key = some o → key ∈ keys) (bounded : s.Bounded b) :
    s'.Bounded (b.turn k) := by
  intro k' key o' controlled found
  unfold Bounds.turn
  split
  next falls =>
    obtain ⟨rfl, falls⟩ := falls
    obtain ⟨o, before, le, next⟩ := h.heir key o' found
    have bound := bounded k' key o controlled before
    rcases next (all key o before) rfl with ⟨dependent, apart⟩ | fewer
    · rcases falls with two | zero
      · omega
      · exact absurd dependent (torn.clear bounded zero before)
    · omega
  next => exact h.bounded bounded k' key o' controlled found

end Passed
end Store

namespace Scenario

def playRounds (prefixes : AnnotationPrefixes) : List Timestamp → ScriptedStore →
    List (String × Outcome) × ScriptedStore
  | [], w => ([], w)
  | now :: later, w =>
    let (outcomes, w) := playRound ⟨prefixes, now⟩ Kind.reconciled w
    let (more, w) := playRounds prefixes later w
    (outcomes ++ more, w)

def failures (outcomes : List (String × Outcome)) : Nat :=
  (outcomes.map fun o => Outcome.failed o.2).sum

theorem failures_append (xs ys : List (String × Outcome)) :
    failures (xs ++ ys) = failures xs + failures ys := by
  simp [failures]

theorem failures_eq_zero {outcomes : List (String × Outcome)} (none : failures outcomes = 0) :
    ∀ o ∈ outcomes, o.2 = .ok () := by
  intro o among
  have fine : Outcome.failed o.2 = 0 := by
    rw [failures, List.sum_eq_zero_iff] at none
    exact none _ (List.mem_map_of_mem among)
  cases is : o.2 with
  | ok _ => rfl
  | error e =>
    rw [is] at fine
    contradiction

variable {s : Store} {k : Kind}

theorem passed_passOver {setting : Setting} (controlled : k ≠ .pod)
    {entries : List (String × Object k)}
    (looks : ∀ e ∈ entries, (Reconcile.subject k e.2.ref).key = e.1)
    (torn : s.TornDown setting.prefixes.claim) :
    ∃ s', (passOver setting entries { store := s }).2 = { store := s' } ∧
      Store.Passed setting.prefixes.claim k (entries.map Prod.fst) s s'
        (failures (passOver setting entries { store := s }).1) := by
  induction entries generalizing s with
  | nil => exact ⟨s, rfl, .none_over torn⟩
  | cons e rest ih =>
    obtain ⟨key, o⟩ := e
    have first := Store.passed_pass torn controlled (looks (key, o) List.mem_cons_self)
      setting.now setting.now
    obtain ⟨s', ends, later⟩ :=
      ih (fun e among => looks e (List.mem_cons_of_mem _ among)) first.torn
    have runs : runPass setting k o.ref { store := s } = _ := ScriptedStore.run_unscripted ..
    refine ⟨s', ?_, ?_⟩
    · simp only [passOver, runs, ends]
    · have both := first.append later
      rw [List.singleton_append] at both
      simpa only [passOver, runs, failures, List.map_cons, List.sum_cons] using both

/-- What a stretch of passes comes to: as many fail as failures were armed and are not any more, and
bounds hold on; if no pass fails, those for the turns hold afterwards. -/
structure Declines (claimPrefix : String) (turns : Bounds → Bounds) (s s' : Store)
    (failures : Nat) : Prop where
  torn : s'.TornDown claimPrefix
  balance : failures + s'.failNextStatusWrite.toNat = s.failNextStatusWrite.toNat
  bounded : ∀ b, s.Bounded b → s'.Bounded b
  turns : failures = 0 → ∀ b, s.Bounded b → s'.Bounded (turns b)

theorem declines_playRound (setting : Setting) (kinds : List Kind) (controlled : .pod ∉ kinds)
    (torn : s.TornDown setting.prefixes.claim) :
    ∃ s', (playRound setting kinds { store := s }).2 = { store := s' } ∧
      Declines setting.prefixes.claim (fun b => kinds.foldl Bounds.turn b) s s'
        (failures (playRound setting kinds { store := s }).1) := by
  induction kinds generalizing s with
  | nil => exact ⟨s, rfl, torn, Nat.zero_add _, fun _ h => h, fun _ _ h => h⟩
  | cons k rest ih =>
    rw [List.mem_cons, not_or] at controlled
    have entry : ∀ e ∈ (s.table k).entries, s.find k e.1 = some e.2 := fun e among =>
      SortedMap.find_eq_some_iff.mpr among
    have looks : ∀ e ∈ (s.table k).entries, (Reconcile.subject k e.2.ref).key = e.1 :=
      fun e among => (torn.placed k e.1 e.2 (Ne.symm controlled.1) (entry e among)).subject
    have all : ∀ key (o : Object k), s.find k key = some o →
        key ∈ (s.table k).entries.map Prod.fst := fun key o found =>
      List.mem_map_of_mem (f := Prod.fst) (SortedMap.find_eq_some_iff.mp found)
    obtain ⟨s₁, ends, passed⟩ := passed_passOver (Ne.symm controlled.1) looks torn
    obtain ⟨s₂, ends', later⟩ := ih controlled.2 passed.torn
    refine ⟨s₂, ?_, later.torn, ?_, ?_, ?_⟩
    · simp only [playRound, ends, ends']
    · have := passed.balance
      have := later.balance
      simp only [playRound, ends, failures_append]
      omega
    · exact fun b bounded => later.bounded b (passed.bounded bounded)
    · intro none b bounded
      simp only [playRound, ends, failures_append, Nat.add_eq_zero_iff] at none
      rw [none.1] at passed
      exact later.turns none.2 _ (passed.turn torn all bounded)

theorem declines_playRounds {prefixes : AnnotationPrefixes} (times : List Timestamp)
    (torn : s.TornDown prefixes.claim) :
    ∃ s', (playRounds prefixes times { store := s }).2 = { store := s' } ∧
      s'.TornDown prefixes.claim ∧
      failures (playRounds prefixes times { store := s }).1 ≤ s.failNextStatusWrite.toNat ∧
      ∀ n b, n = 0 ∨ n + s.failNextStatusWrite.toNat ≤ times.length → s.Bounded b →
        s'.Bounded (Bounds.round^[n] b) := by
  induction times generalizing s with
  | nil =>
    refine ⟨s, rfl, torn, Nat.zero_le _, ?_⟩
    intro n b enough bounded
    obtain rfl : n = 0 := by
      rw [List.length_nil] at enough
      omega
    exact bounded
  | cons now later ih =>
    obtain ⟨s₁, ends, first⟩ := declines_playRound ⟨prefixes, now⟩ Kind.reconciled
      (by decide) torn
    obtain ⟨s₂, ends', torn', few, rest⟩ := ih first.torn
    have balance := first.balance
    have armed := s.failNextStatusWrite.toNat_le
    refine ⟨s₂, ?_, torn', ?_, ?_⟩
    · simp only [playRounds, ends, ends']
    · simp only [playRounds, ends, failures_append]
      omega
    · intro n b enough bounded
      rw [List.length_cons] at enough
      by_cases none : failures (playRound ⟨prefixes, now⟩ Kind.reconciled { store := s }).1 = 0
      · cases n with
        | zero => exact rest 0 b (Or.inl rfl) (first.bounded b bounded)
        | succ n =>
          rw [Function.iterate_succ_apply]
          exact rest n _ (by omega) (first.turns none b bounded)
      · exact rest n b (by omega) (first.bounded b bounded)

end Scenario

/-- Six rounds of a teardown take away everything but the pods, and no pass fails. An armed failure
makes one pass fail, and then it may take seven. -/
theorem teardown_completes (prefixes : AnnotationPrefixes) {s : Store}
    (torn : s.TornDown prefixes.claim) {times : List Timestamp}
    (enough : 6 + s.failNextStatusWrite.toNat ≤ times.length) :
    (s.failNextStatusWrite = false →
        ∀ pass ∈ (Scenario.playRounds prefixes times { store := s }).1, pass.2 = .ok ()) ∧
      Scenario.failures (Scenario.playRounds prefixes times { store := s }).1 ≤ 1 ∧
      ∀ k key, k ≠ .pod →
        (Scenario.playRounds prefixes times { store := s }).2.store.find k key = none := by
  obtain ⟨s', ends, torn', few, bounded⟩ := Scenario.declines_playRounds times torn
  refine ⟨?_, Nat.le_trans few (Bool.toNat_le _), ?_⟩
  · intro unarmed
    rw [unarmed] at few
    exact Scenario.failures_eq_zero (Nat.le_zero.mp few)
  · intro k key controlled
    rw [ends]
    have zero := Bounds.round_six k
    exact torn'.none_of_bounded (bounded 6 _ (Or.inr enough) torn.bounded) controlled zero key

open Cluster (noon)

def leavingMetadata (name : String) (ns : Option String) (token : ProtectionToken) : Metadata :=
  { name := some name, namespace_ := ns, uid := some name, deletionTimestamp := some noon,
    finalizers := some [token.text] }

def allLeaving : Store where
  classes := .ofList [("c", ⟨leavingMetadata "c" none .ofClass, ⟨⟩, some ⟨some .deleting⟩⟩)]
  pools := .ofList
    [("m", ⟨leavingMetadata "m" none .ofPool, ⟨"c", 5000, 5009, true⟩, some ⟨some .deleting, []⟩⟩),
      ("n", ⟨leavingMetadata "n" none .ofPool, ⟨"c", 6000, 6009, true⟩,
        some ⟨some .deleting, []⟩⟩)]
  claims := .ofList
    [("t/api", ⟨leavingMetadata "api" (some "t") .ofClaim, ⟨"c"⟩,
        some ⟨some .settled, some "claim-api"⟩⟩),
      ("t/web", ⟨leavingMetadata "web" (some "t") .ofClaim, ⟨"c"⟩, none⟩)]
  ports := .ofList
    [("claim-api",
        ⟨{ name := some "claim-api", finalizers := some [ProtectionToken.ofPort.text] },
          ⟨some ⟨"t", "api", "api"⟩, "c"⟩, some ⟨some .settled, 5000, some "m"⟩⟩),
      ("claim-web", ⟨leavingMetadata "claim-web" none .ofPort, ⟨some ⟨"t", "web", "web"⟩, "c"⟩,
        some ⟨some .deleting, 6000, some "n"⟩⟩)]
  pods := .ofList
    [("t/x", ⟨{ name := some "x", namespace_ := some "t",
                annotations := some (.ofList [("claims/http", "old")]) }, none, none⟩)]

theorem allLeaving_tornDown : allLeaving.TornDown "claims" := by
  refine ⟨.of_entries (by decide +kernel), ?_, ?_⟩
  · have all : ∀ k ∈ Kind.reconciled, ∀ e ∈ (allLeaving.table k).entries, e.2.Leaving := by
      decide +kernel
    intro k key o controlled found
    have among : k ∈ Kind.reconciled := by cases k <;> first | decide | contradiction
    exact all k among (key, o) (SortedMap.find_eq_some_iff.mp found)
  · have unused : ∀ c ∈ allLeaving.claims.values, ∀ pod ∈ allLeaving.pods.values,
        PortClaim.isUsedBy c.displayName "claims" pod = false := by decide +kernel
    rintro key c found ⟨key', pod, found', _, used⟩
    rw [unused c (Store.mem_values (k := .portClaim).mpr ⟨key, found⟩) pod
      (Store.mem_values (k := .pod).mpr ⟨key', found'⟩)] at used
    contradiction

theorem teardown_completes_shared :
    let r := Scenario.playRounds ⟨"claims", "ports"⟩ (List.replicate 6 noon) { store := allLeaving }
    allLeaving.TornDown "claims" ∧ (∀ pass ∈ r.1, pass.2 = .ok ()) ∧
      ∀ k key, k ≠ .pod → r.2.store.find k key = none := by
  intro r
  have enough : 6 + allLeaving.failNextStatusWrite.toNat ≤ (List.replicate 6 noon).length := by
    decide
  have completes := teardown_completes ⟨"claims", "ports"⟩ allLeaving_tornDown enough
  exact ⟨allLeaving_tornDown, completes.1 rfl, completes.2.2⟩

/-- An armed failure can cost a round: it hits the first claim, and after six rounds the class is
still there. -/
theorem teardown_delayed :
    ¬ ∀ (prefixes : AnnotationPrefixes) (s : Store) (times : List Timestamp),
      s.TornDown prefixes.claim → times.length = 6 →
        (∀ pass ∈ (Scenario.playRounds prefixes times { store := s }).1, pass.2 = .ok ()) ∧
        ∀ k key, k ≠ .pod →
          (Scenario.playRounds prefixes times { store := s }).2.store.find k key = none := by
  intro all
  let s : Store := { allLeaving with failNextStatusWrite := true }
  have torn : s.TornDown "claims" :=
    allLeaving_tornDown.of_unchanged ⟨fun k => by cases k <;> rfl, rfl, rfl⟩
  have gone := (all ⟨"claims", "ports"⟩ s (List.replicate 6 noon) torn rfl).2 .portClass "c"
    (by decide)
  have stays : ((Scenario.playRounds ⟨"claims", "ports"⟩ (List.replicate 6 noon)
      { store := s }).2.store.find .portClass "c").isSome = true := by decide +kernel
  rw [gone] at stays
  exact absurd stays (by decide)

end HostPorts
