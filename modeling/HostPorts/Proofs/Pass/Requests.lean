import HostPorts.Proofs.Pass.Due

/-!
The writes that an undisturbed pass asks for. `DueWrite` lists them with all their guards: each goes
by an object that is stored, just as the pass has read it, when the request is made.
-/
namespace HostPorts

theorem Discipline.Safe.meets {D : Discipline} {α : Type} {now : Timestamp} {p : Pass α}
    {sec : Section} {s t : Store} {r : Request} (h : D.Safe p sec s) (valid : D.inv s)
    (asked : (t, r) ∈ s.writesOf now p) : D.inv t := by
  induction p generalizing sec s with
  | done a => contradiction
  | call r' next ih =>
    obtain ⟨⟨kept, _⟩, rest⟩ := (h s valid (D.rely_refl sec s)).1 now
    rcases List.mem_append.mp asked with first | later
    · split at first
      · contradiction
      · rw [List.mem_singleton] at first
        cases first
        exact valid
    · exact ih _ rest kept later
  | alone rest ih => exact ih (h s valid (D.rely_refl sec s)) valid asked

namespace Reconcile

inductive DueWrite (now : Timestamp) (claimPrefix : String) (s : Store) : Request → Prop where
  | status {k : Kind} {o new : Object k} (here : s.find k o.key = some o)
      (write : StatusWrite now s o new) : DueWrite now claimPrefix s (.updateStatus k new)
  | release {k : Kind} {o : Object k} (here : s.find k o.key = some o)
      (deleted : o.isBeingDeleted = true) (marked : o.phase = some .deleting)
      (held : o.isProtected = true) (clear : ¬ s.HasDependent claimPrefix o) :
      DueWrite now claimPrefix s (.updateFinalizers k o.released)
  | create {c : PortClaim} {ns uid : String} (here : s.find .portClaim c.key = some c)
      (live : c.isBeingDeleted = false) (within : c.metadata.namespace_ = some ns)
      (identity : c.metadata.uid = some uid) :
      DueWrite now claimPrefix s (.createPort (c.backingPort ns uid))
  | reclaim {p : Port} {r : ClaimReference} (here : s.find .port p.key = some p)
      (live : p.isBeingDeleted = false) (settled : p.phase = some .settled)
      (owner : p.spec.claimRef = some r) (orphan : s.hasClaim r = false) :
      DueWrite now claimPrefix s (.deletePort p)

variable {now later : Timestamp} {claimPrefix : String} {s t : Store} {k : Kind} {r : Request}

theorem writesOf_finish : s.writesOf later finish = [] := rfl

theorem writesOf_commit (write : r.isRead = false) : s.writesOf later (commit r) = [(s, r)] := by
  simp only [commit, ask, Store.writesOf, write, Bool.false_eq_true, if_false]
  cases (s.answer later r).1 <;> rfl

theorem mem_writesOf_ensureBackingPort {c : PortClaim} {ns uid : String}
    {next : String → Pass Outcome} (within : c.metadata.namespace_ = some ns)
    (identity : c.metadata.uid = some uid)
    (asked : (t, r) ∈ s.writesOf later (ensureBackingPort c next)) :
    (t, r) = (s, .createPort (c.backingPort ns uid)) ∨
      (t, r) ∈ (s.answer later (.createPort (c.backingPort ns uid))).2.writesOf later
        (next (portNameForClaim uid)) := by
  simp only [ensureBackingPort, within, identity, Store.writesOf, Request.isRead,
    Bool.false_eq_true, if_false, List.singleton_append, List.mem_cons] at asked
  rcases asked with first | rest
  · exact Or.inl first
  · right
    generalize (s.answer later (.createPort (c.backingPort ns uid))).1 = reply at rest
    cases reply with
    | ok port => exact rest
    | error e =>
      simp only at rest
      split at rest
      · exact rest
      · contradiction

theorem Due.dueWrite {o : Object k} {p : Pass Outcome} (due : Due now claimPrefix s o p)
    (here : s.find k o.key = some o) (asked : (t, r) ∈ s.writesOf later p) :
    DueWrite now claimPrefix t r := by
  cases due with
  | idle => contradiction
  | status write =>
    rw [writeStatus, writesOf_commit rfl, List.mem_singleton] at asked
    cases asked
    exact .status here write
  | release deleted marked held clear =>
    rw [Reconcile.release, writesOf_commit rfl, List.mem_singleton] at asked
    cases asked
    exact .release here deleted marked held clear
  | @bind c ns uid live waiting within identity =>
    rcases mem_writesOf_ensureBackingPort within identity asked with first | second
    · cases first
      exact .create here live within identity
    · rw [writeStatus, writesOf_commit rfl, List.mem_singleton] at second
      cases second
      refine .status ?_ (.claimBound live waiting identity)
      -- making a port leaves the claims as they are
      rcases Store.createPort_cases later (c.backingPort ns uid) s with same | ⟨_, _, puts⟩
      · rwa [same.find]
      · rwa [puts.find_other (by decide)]
  | restore live _ _ _ within identity =>
    rcases mem_writesOf_ensureBackingPort within identity asked with first | second
    · cases first
      exact .create here live within identity
    · contradiction
  | reclaim live settled owner orphan =>
    rw [writesOf_commit rfl, List.mem_singleton] at asked
    cases asked
    exact .reclaim here live settled owner orphan

/-- Whatever a pass asks for is due on the store that it meets. -/
theorem dueWrite_of_pass (keyed : ∀ k key (o : Object k), s.find k key = some o → o.key = key)
    {ref : ObjectRef} (asked : (t, r) ∈ s.writesOf later (pass now claimPrefix k ref)) :
    DueWrite now claimPrefix t r := by
  by_cases absent : k = .pod ∨ s.find k (subject k ref).key = none
  · rw [(reads_pass_absent now later claimPrefix absent).writesOf_eq, writesOf_finish] at asked
    contradiction
  · obtain ⟨controlled, stored⟩ := not_or.mp absent
    obtain ⟨o, found⟩ := Option.ne_none_iff_exists'.mp stored
    obtain ⟨p, due, reads⟩ := reaches_due now later claimPrefix controlled found
    rw [reads.writesOf_eq] at asked
    rw [← keyed k _ o found] at found
    exact due.dueWrite found asked

end Reconcile
end HostPorts
