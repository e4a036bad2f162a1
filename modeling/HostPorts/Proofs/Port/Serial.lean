import HostPorts.Proofs.Pass.Undisturbed
import HostPorts.Proofs.Port.Race
import HostPorts.Scenario.Step
import Mathlib.Data.List.Perm.Subperm

/-!
Passes over pending ports at the same time come to what they come to one after the other. Until it
takes the lock a pass only reads its own port and a class, which no other pass writes; from then on
nobody else writes at all. So the order in which the lock is taken is the serial order, and a pass
that never takes it may stand anywhere.
-/
namespace HostPorts

def Store.passPorts (now : Timestamp) : List String → Store → List (String × Outcome) × Store
  | [], s => ([], s)
  | name :: rest, s =>
    let (outcome, s) := s.run now (Reconcile.port name)
    let (outcomes, s) := passPorts now rest s
    ((name, outcome) :: outcomes, s)

/-- `Store.passPorts` makes the passes that a scenario makes over ports. -/
theorem Scenario.passPorts_unscripted (setting : Setting) (line : List String) (s : Store) :
    passPorts setting line { store := s } =
      ((s.passPorts setting.now line).1.map Prod.snd,
        { store := (s.passPorts setting.now line).2 }) := by
  induction line generalizing s with
  | nil => rfl
  | cons name rest ih =>
    have first : runPass setting .port ⟨none, name⟩ { store := s } =
        ((s.run setting.now (Reconcile.port name)).1,
          { store := (s.run setting.now (Reconcile.port name)).2 }) :=
      ScriptedStore.run_unscripted ..
    simp only [passPorts, Store.passPorts, first, ih, List.map_cons]

def Request.WritesOnly (key : String) (r : Request) : Prop :=
  r.isRead = true ∨ ∃ p : Port, p.key = key ∧ r = .updateStatus .port p

def Pass.WritesOnly {α : Type} (key : String) : Pass α → Prop
  | .done _ => True
  | .call r next => r.WritesOnly key ∧ ∀ reply, (next reply).WritesOnly key
  | .alone rest => rest.WritesOnly key

namespace Store

variable {s t u : Store} {name : String} {names : List String} {p : Port}

/-- Nothing differs that a pass looks at before it takes the lock, ports of these names apart. -/
structure AlikeBut (names : List String) (s t : Store) : Prop where
  ports : ∀ name ∉ names, t.find .port name = s.find .port name
  classes : ∀ name, t.find .portClass name = s.find .portClass name
  unarmed : t.failNextStatusWrite = false

theorem AlikeBut.refl (unarmed : s.failNextStatusWrite = false) : AlikeBut names s s :=
  ⟨fun _ _ => rfl, fun _ => rfl, unarmed⟩

theorem AlikeBut.mono {more : List String} (h : AlikeBut names s t) (subset : names ⊆ more) :
    AlikeBut more s t :=
  ⟨fun name out => h.ports name fun member => out (subset member), h.classes, h.unarmed⟩

theorem AlikeBut.trans {more : List String} (h : AlikeBut names s t) (h' : AlikeBut more t u) :
    AlikeBut (names ++ more) s u := by
  refine ⟨?_, fun name => (h'.classes name).trans (h.classes name), h'.unarmed⟩
  intro name out
  rw [List.mem_append, not_or] at out
  exact (h'.ports name out.2).trans (h.ports name out.1)

structure Waits (s : Store) (name : String) (p : Port) : Prop where
  stored : s.find .port name = some p
  named : p.metadata.name = some name
  clusterWide : p.metadata.namespace_ = none
  pending : p.phase = some .pending
  live : p.isBeingDeleted = false

instance (s : Store) (name : String) : Decidable (∃ p, s.Waits name p) :=
  match found : s.find .port name with
  | none => isFalse fun ⟨_, waits⟩ => nomatch found.symm.trans waits.stored
  | some p =>
    decidable_of_iff
      (p.metadata.name = some name ∧ p.metadata.namespace_ = none ∧ p.phase = some .pending ∧
        p.isBeingDeleted = false)
      ⟨fun ⟨named, clusterWide, pending, live⟩ => ⟨p, found, named, clusterWide, pending, live⟩,
        fun ⟨_, waits⟩ =>
          have same := Option.some.inj (waits.stored.symm.trans found)
          ⟨same ▸ waits.named, same ▸ waits.clusterWide, same ▸ waits.pending, same ▸ waits.live⟩⟩

theorem Waits.key (h : s.Waits name p) : p.key = name := by
  simp [Object.key, Object.ref, ObjectRef.key, h.named, h.clusterWide]

theorem Waits.alike (h : s.Waits name p) (alike : AlikeBut names s t) (out : name ∉ names) :
    t.Waits name p :=
  ⟨(alike.ports name out).trans h.stored, h.named, h.clusterWide, h.pending, h.live⟩

theorem answer_untimed {key : String} {r : Request} (only : r.WritesOnly key)
    (now later : Timestamp) : s.answer now r = s.answer later r := by
  rcases only with read | ⟨p, _, rfl⟩
  · cases r <;> first | rfl | contradiction
  · rfl

theorem alike_answer {key : String} {r : Request} (only : r.WritesOnly key)
    (unarmed : s.failNextStatusWrite = false) (now : Timestamp) :
    AlikeBut [key] s (s.answer now r).2 := by
  rcases only with read | ⟨p, rfl, rfl⟩
  · rw [answer_of_isRead read]
    exact .refl unarmed
  · have still : (s.updateStatus p).2.failNextStatusWrite = false := by
      unfold updateStatus
      simp only [unarmed, Bool.false_eq_true, if_false]
      exact (update_armed ..).trans unarmed
    rcases updateStatus_cases p s with same | ⟨_, _, _, _, puts⟩
    · exact ⟨fun name _ => same.find .port name, same.find .portClass, still⟩
    · refine ⟨?_, puts.find_other (by decide), still⟩
      intro name out
      exact puts.beside name fun here => out (List.mem_singleton.mpr here)

theorem alike_run {key : String} {rest : Pass Outcome} (only : rest.WritesOnly key)
    (unarmed : s.failNextStatusWrite = false) (now : Timestamp) :
    AlikeBut [key] s (s.run now rest).2 := by
  induction rest generalizing s with
  | done o => exact .refl unarmed
  | call r next ih =>
    have first := alike_answer only.1 unarmed now
    have both := first.trans (ih (s.answer now r).1 (only.2 _) first.unarmed)
    exact both.mono (by simp)
  | alone rest ih => exact ih only unarmed

end Store

namespace Reconcile

variable {s : Store} {name : String} {p : Port} {now : Timestamp}

def choosePort (p : Port) : Pass Outcome :=
  ask (.list .portPool) fun (pools : List PortPool) =>
    ask (.list .port) fun (ports : List Port) =>
      match p.allocation pools ports with
      | .error e => .done (.error (.allocation e))
      | .ok a => writeStatus (p.allocated a)

theorem allocatePort_eq (p : Port) : allocatePort p =
    ask (.get .portClass ⟨none, p.spec.classRef⟩) fun _ => .alone (choosePort p) := rfl

theorem choosePort_writesOnly (p : Port) : (choosePort p).WritesOnly p.key := by
  refine ⟨Or.inl rfl, ?_⟩
  intro reply
  cases reply with
  | error e => trivial
  | ok pools =>
    refine ⟨Or.inl rfl, ?_⟩
    intro reply
    cases reply with
    | error e => trivial
    | ok ports =>
      simp only
      split
      · trivial
      next a _ =>
        refine ⟨Or.inr ⟨p.allocated a, rfl, rfl⟩, ?_⟩
        intro reply
        cases reply <;> trivial

def classMissing (p : Port) : Outcome := .error (.store (.notFound .portClass p.spec.classRef))

theorem run_port (waits : s.Waits name p) : s.run now (port name) = s.run now (allocatePort p) := by
  rw [port, run_find waits.stored]
  simp only [waits.live, waits.pending, Bool.false_eq_true, if_false]

theorem run_port_ready {c : PortClass} (waits : s.Waits name p)
    (found : s.find .portClass p.spec.classRef = some c) :
    s.run now (port name) = s.run now (choosePort p) := by
  rw [run_port waits, allocatePort_eq, run_ask_get found]
  rfl

theorem run_port_classMissing (waits : s.Waits name p)
    (absent : s.find .portClass p.spec.classRef = none) :
    s.run now (port name) = (classMissing p, s) := by
  rw [run_port waits, allocatePort_eq, run_ask_get_absent absent]
  rfl

theorem alike_port (now : Timestamp) (waits : s.Waits name p)
    (unarmed : s.failNextStatusWrite = false) :
    s.AlikeBut [name] (s.run now (port name)).2 := by
  cases class_ : s.find .portClass p.spec.classRef with
  | none =>
    rw [run_port_classMissing waits class_]
    exact .refl unarmed
  | some c =>
    rw [run_port_ready waits class_]
    have only := choosePort_writesOnly p
    rw [waits.key] at only
    exact Store.alike_run only unarmed now

end Reconcile

theorem Store.passPorts_snoc (now : Timestamp) (order : List String) (name : String) (s : Store) :
    s.passPorts now (order ++ [name]) =
      ((s.passPorts now order).1 ++
          [(name, ((s.passPorts now order).2.run now (Reconcile.port name)).1)],
        ((s.passPorts now order).2.run now (Reconcile.port name)).2) := by
  induction order generalizing s with
  | nil => rfl
  | cons first rest ih =>
    simp only [List.cons_append, passPorts, ih]

theorem Section.isInside_after (sec : Section) (r : Request) (reply : r.Reply) :
    (sec.after r reply).isInside = sec.isInside := by
  cases sec with
  | outside => rfl
  | entered =>
    cases r with
    | list k => cases k <;> cases reply <;> rfl
    | _ => rfl
  | offered pools =>
    cases r with
    | list k => cases k <;> cases reply <;> rfl
    | _ => rfl

namespace Race

variable {now : Timestamp} {s t : Store} {names : List String} {R T : Race}

inductive Approach (s : Store) (name : String) (p : Port) : Pass Outcome → Prop where
  | begun : Approach s name p (Reconcile.port name)
  | read : Approach s name p (Reconcile.allocatePort p)
  | ready {c : PortClass} (found : s.find .portClass p.spec.classRef = some c) :
      Approach s name p (.alone (Reconcile.choosePort p))
  | failed (absent : s.find .portClass p.spec.classRef = none) :
      Approach s name p (.done (Reconcile.classMissing p))

/-- Where a pass stands in a race that has come to store `t`, against the serial run of all that
have taken the lock. The one inside will leave the store as the serial run does. -/
inductive Standing (now : Timestamp) (s t : Store) (order : List String) :
    String → Running → Prop where
  | before {name : String} {p : Port} {rest : Pass Outcome} (waits : s.Waits name p)
      (fresh : name ∉ order) (approach : Approach s name p rest) :
      Standing now s t order name ⟨rest, .outside⟩
  | inside {name : String} {rest : Pass Outcome} {sec : Section} {outcome : Outcome}
      (stand : sec.isInside = true) (taken : name ∈ order) (only : rest.WritesOnly name)
      (agrees : t.run now rest = (outcome, (s.passPorts now order).2))
      (listed : (name, outcome) ∈ (s.passPorts now order).1) :
      Standing now s t order name ⟨rest, sec⟩
  | after {name : String} {outcome : Outcome} (taken : name ∈ order)
      (listed : (name, outcome) ∈ (s.passPorts now order).1) :
      Standing now s t order name ⟨.done outcome, .outside⟩

structure Serializes (now : Timestamp) (s : Store) (names : List String) (R : Race) : Prop where
  named : R.passes.map Prod.fst = names
  nodup : R.order.Nodup
  within : R.order ⊆ names
  alike : s.AlikeBut R.order R.store
  standing : ∀ (i : Nat) name p, R.passes[i]? = some (name, p) →
    Standing now s R.store R.order name p
  single : ∀ (i j : Nat) e e', R.passes[i]? = some e → R.passes[j]? = some e' →
    e.2.stand.isInside = true → e'.2.stand.isInside = true → i = j
  settled : (∀ e ∈ R.passes, e.2.stand.isInside = false) →
    R.store = (s.passPorts now R.order).2

theorem Serializes.start (unarmed : s.failNextStatusWrite = false)
    (waiting : ∀ name ∈ names, ∃ p, s.Waits name p) :
    Serializes now s names (Race.start s names) := by
  have begun : ∀ (i : Nat) e, (Race.start s names).passes[i]? = some e →
      ∃ name ∈ names, e = (name, { rest := Reconcile.port name }) := by
    intro i e found
    obtain ⟨name, listed, is⟩ := List.mem_map.mp (List.mem_of_getElem? found)
    exact ⟨name, listed, is.symm⟩
  refine ⟨?_, List.nodup_nil, List.nil_subset names, .refl unarmed, ?_, ?_, fun _ => rfl⟩
  · simp [Race.start, Function.comp_def]
  · intro i name p found
    obtain ⟨name', listed, is⟩ := begun i _ found
    cases is
    obtain ⟨port, waits⟩ := waiting name listed
    exact .before waits List.not_mem_nil .begun
  · intro i j e e' found _ inside
    obtain ⟨name, _, rfl⟩ := begun i e found
    contradiction

theorem Serializes.apart (h : Serializes now s names R) (distinct : names.Nodup) {i j : Nat}
    {e e' : String × Running} (here : R.passes[i]? = some e) (found : R.passes[j]? = some e')
    (ne : i ≠ j) : e'.1 ≠ e.1 := by
  intro same
  rw [← h.named] at distinct
  have first : (R.passes.map Prod.fst)[i]? = some e.1 := by simp [here]
  have second : (R.passes.map Prod.fst)[j]? = some e.1 := by simp [found, same]
  obtain ⟨below, _⟩ := List.getElem?_eq_some_iff.mp first
  exact ne ((List.getElem?_inj below distinct).mp (first.trans second.symm))

theorem entry_of_set {passes : List (String × Running)} {i j : Nat} {new e : String × Running}
    (found : (passes.set i new)[j]? = some e) :
    (i = j ∧ e = new) ∨ (i ≠ j ∧ passes[j]? = some e) := by
  rw [List.getElem?_set] at found
  split at found
  next same =>
    split at found
    · exact Or.inl ⟨same, (Option.some.inj found).symm⟩
    · contradiction
  next ne => exact Or.inr ⟨ne, found⟩

theorem Serializes.replace (h : Serializes now s names R) (distinct : names.Nodup) {i : Nat}
    {name : String} {p q : Running} {order : List String}
    (here : R.passes[i]? = some (name, p)) (nodup : order.Nodup) (within : order ⊆ names)
    (alike : s.AlikeBut order t)
    (standing : Standing now s t order name q)
    (others : ∀ name' p', (name', p') ∈ R.passes → name' ≠ name →
      (p.stand.isInside = true → p'.stand.isInside = false) →
      Standing now s R.store R.order name' p' → Standing now s t order name' p')
    (single : q.stand.isInside = true → p.stand.isInside = true ∨
      ∀ e ∈ R.passes, e.2.stand.isInside = false)
    (settled : q.stand.isInside = false → (p.stand.isInside = false →
      R.store = (s.passPorts now R.order).2) → t = (s.passPorts now order).2) :
    Serializes now s names ⟨t, R.passes.set i (name, q), order⟩ := by
  refine ⟨?_, nodup, within, alike, ?_, ?_, ?_⟩
  · obtain ⟨below, is⟩ := List.getElem?_eq_some_iff.mp here
    have same : (R.passes.map Prod.fst).set i R.passes[i].1 = R.passes.map Prod.fst := by
      rw [← List.map_set, List.set_getElem_self]
    rw [is] at same
    rw [List.map_set, same, h.named]
  · intro j name' p' found
    rcases entry_of_set found with ⟨_, is⟩ | ⟨ne, found⟩
    · cases is
      exact standing
    · refine others name' p' (List.mem_of_getElem? found) (h.apart distinct here found ne) ?_
        (h.standing j name' p' found)
      intro inside
      rw [← Bool.not_eq_true]
      intro inside'
      exact ne (h.single i j _ _ here found inside inside')
  · intro j k e e' found found' inside inside'
    have alone : ∀ (l : Nat) e, i ≠ l → R.passes[l]? = some e → e.2.stand.isInside = true →
        q.stand.isInside = true → False := by
      intro l e ne found inside now
      rcases single now with before | outside
      · exact ne (h.single i l _ _ here found before inside)
      · rw [outside e (List.mem_of_getElem? found)] at inside
        contradiction
    rcases entry_of_set found with ⟨rfl, rfl⟩ | ⟨ne, old⟩ <;>
      rcases entry_of_set found' with ⟨rfl, rfl⟩ | ⟨ne', old'⟩
    · rfl
    · exact absurd inside (fun now => alone k e' ne' old' inside' now)
    · exact absurd inside' (fun now => alone j e ne old inside now)
    · exact h.single j k e e' old old' inside inside'
  · intro outside
    have below : i < R.passes.length := (List.getElem?_eq_some_iff.mp here).1
    refine settled (outside (name, q) (List.mem_set below _)) ?_
    intro before
    apply h.settled
    intro e member
    obtain ⟨j, found⟩ := List.mem_iff_getElem?.mp member
    by_cases same : i = j
    · subst same
      rw [here] at found
      cases found
      exact before
    · apply outside
      apply List.mem_of_getElem? (i := j)
      rw [List.getElem?_set, if_neg same, found]

theorem Approach.call {name : String} {p : Port} {r : Request} {next : r.Reply → Pass Outcome}
    {order : List String} (h : Approach s name p (.call r next)) (waits : s.Waits name p)
    (alike : s.AlikeBut order t) (fresh : name ∉ order) (later : Timestamp) :
    (t.answer later r).2 = t ∧ Approach s name p (next (t.answer later r).1) := by
  generalize is : Pass.call r next = rest at h
  cases h with
  | begun =>
    unfold Reconcile.port Reconcile.find at is
    cases is
    refine ⟨rfl, ?_⟩
    have stored := (waits.alike alike fresh).stored
    change (t.table .port).find? name = some p at stored
    simp only [Store.answer, Table.get, ObjectRef.key, stored, waits.live, waits.pending,
      Bool.false_eq_true, if_false]
    exact .read
  | read =>
    rw [Reconcile.allocatePort_eq, Reconcile.ask] at is
    cases is
    refine ⟨rfl, ?_⟩
    have same : (t.table .portClass).find? p.spec.classRef = s.find .portClass p.spec.classRef :=
      alike.classes p.spec.classRef
    simp only [Store.answer, Table.get, ObjectRef.key, same]
    cases found : s.find .portClass p.spec.classRef with
    | none => exact .failed found
    | some c => exact .ready found
  | ready found => contradiction
  | failed absent => contradiction

theorem Standing.beside {name : String} {p : Running} {order : List String}
    (h : Standing now s R.store R.order name p) (outside : p.stand.isInside = false)
    (fresh : name ∉ R.order → name ∉ order) (subset : R.order ⊆ order)
    (listed : (s.passPorts now R.order).1 ⊆ (s.passPorts now order).1) :
    Standing now s t order name p := by
  cases h with
  | before waits out approach => exact .before waits (fresh out) approach
  | inside stand =>
    rw [outside] at stand
    contradiction
  | after taken done => exact .after (subset taken) (listed done)

theorem Serializes.ended (h : Serializes now s names R) (distinct : names.Nodup) {i : Nat}
    {name : String} {outcome : Outcome} {sec : Section}
    (here : R.passes[i]? = some (name, ⟨.done outcome, sec⟩)) :
    Serializes now s names
      { R with passes := R.passes.set i (name, ⟨.done outcome, .outside⟩) } := by
  have stands := h.standing i _ _ here
  refine h.replace distinct here h.nodup h.within h.alike ?_ (fun _ _ _ _ _ stands => stands)
    (fun inside => by contradiction) ?_
  · cases stands with
    | before waits fresh approach => exact .before waits fresh approach
    | inside stand taken only agrees listed =>
      obtain rfl := congrArg Prod.fst agrees
      exact .after taken listed
    | after taken listed => exact .after taken listed
  · intro _ before
    cases stands with
    | before waits fresh approach => exact before rfl
    | inside stand taken only agrees listed => exact congrArg Prod.snd agrees
    | after taken listed => exact before rfl

theorem Serializes.called (h : Serializes now s names R) (distinct : names.Nodup) {i : Nat}
    {name : String} {r : Request} {next : r.Reply → Pass Outcome} {sec : Section}
    (here : R.passes[i]? = some (name, ⟨.call r next, sec⟩)) (later : Timestamp) :
    Serializes now s names
      { R with
        store := (R.store.answer later r).2
        passes := R.passes.set i
          (name, ⟨next (R.store.answer later r).1, sec.after r (R.store.answer later r).1⟩) } := by
  cases h.standing i _ _ here with
  | before waits fresh approach =>
    obtain ⟨same, approach'⟩ := approach.call waits h.alike fresh later
    rw [same]
    refine h.replace distinct here h.nodup h.within h.alike (.before waits fresh approach')
      (fun _ _ _ _ _ stands => stands) (fun inside => by contradiction) ?_
    intro _ before
    exact before rfl
  | inside stand taken only agrees listed =>
    have after := Store.alike_answer (s := R.store) only.1 h.alike.unarmed later
    have inside : (sec.after r (R.store.answer later r).1).isInside = true := by
      rwa [Section.isInside_after]
    have alike : s.AlikeBut R.order (R.store.answer later r).2 :=
      (h.alike.trans after).mono (by simp [taken])
    refine h.replace distinct here h.nodup h.within alike ?_ ?_ (fun _ => Or.inl stand) ?_
    · refine .inside inside taken (only.2 _) ?_ listed
      rw [Store.answer_untimed only.1 later now]
      exact agrees
    · intro name' p' _ _ outside stands
      exact stands.beside (outside stand) id (List.Subset.refl _) (List.Subset.refl _)
    · intro outside
      rw [inside] at outside
      contradiction

/-- With nobody inside, the store is that of the serial run so far, and the pass that takes the lock
goes on from there as it would in the serial run. -/
theorem Serializes.entered (h : Serializes now s names R) (distinct : names.Nodup) {i : Nat}
    {name : String} {rest : Pass Outcome} {sec : Section}
    (here : R.passes[i]? = some (name, ⟨.alone rest, sec⟩))
    (outside : ∀ e ∈ R.passes, e.2.stand.isInside = false) :
    Serializes now s names
      { R with
        passes := R.passes.set i (name, ⟨rest, .entered⟩)
        order := R.order ++ [name] } := by
  have stands := h.standing i _ _ here
  generalize is : Pass.alone rest = whole at stands here
  cases stands with
  | inside stand =>
    rw [outside _ (List.mem_of_getElem? here)] at stand
    contradiction
  | after => contradiction
  | @before p _ waits fresh approach =>
    cases approach with
    | begun => contradiction
    | read => contradiction
    | failed absent => contradiction
    | ready found =>
      cases is
      have waits' := waits.alike h.alike fresh
      have found' := (h.alike.classes _).trans found
      have only := Reconcile.choosePort_writesOnly p
      rw [waits.key] at only
      have snoc := Store.passPorts_snoc now R.order name s
      rw [← h.settled outside, Reconcile.run_port_ready waits' found'] at snoc
      have agrees : R.store.run now (Reconcile.choosePort p) =
          ((R.store.run now (Reconcile.choosePort p)).1,
            (s.passPorts now (R.order ++ [name])).2) := by
        rw [snoc]
      have nodup : (R.order ++ [name]).Nodup :=
        h.nodup.append (List.nodup_singleton name) (by simpa using fresh)
      have within : R.order ++ [name] ⊆ names := by
        rw [List.append_subset, List.cons_subset]
        refine ⟨h.within, ?_, List.nil_subset _⟩
        rw [← h.named]
        exact List.mem_map_of_mem (List.mem_of_getElem? here)
      refine h.replace distinct here nodup within (h.alike.mono (List.subset_append_left ..)) ?_ ?_
        (fun _ => Or.inr outside) (fun inside => by contradiction)
      · refine .inside rfl (by simp) only agrees ?_
        rw [snoc]
        simp
      · intro name' p' member apart _ stands'
        refine stands'.beside (outside _ member) (fun out => by simp [out, apart])
          (List.subset_append_left ..) ?_
        rw [snoc]
        exact List.subset_append_left ..

theorem Serializes.turn (h : Serializes now s names R) (distinct : names.Nodup) {i : Nat}
    {later : Timestamp} (turned : R.turn i later = some T) : Serializes now s names T := by
  unfold Race.turn at turned
  split at turned
  next => contradiction
  next here =>
    cases turned
    exact h.ended distinct here
  next here =>
    cases turned
    exact h.called distinct here later
  next here =>
    split at turned
    next free =>
      cases turned
      apply h.entered distinct here
      intro e member
      simpa using List.all_eq_true.mp free e member
    next => contradiction

theorem Serializes.play (h : Serializes now s names R) (distinct : names.Nodup)
    {schedule : List (Nat × Timestamp)} (played : R.play schedule = some T) :
    Serializes now s names T := by
  induction schedule generalizing R with
  | nil =>
    cases played
    exact h
  | cons turn rest ih =>
    obtain ⟨mid, first, last⟩ := Option.bind_eq_some_iff.mp played
    exact ih (h.turn distinct first) last

theorem Serializes.failed (h : Serializes now s names R) {name : String} {outcome : Outcome}
    (listed : (name, outcome) ∈ R.outcomes) (fresh : name ∉ R.order) :
    ∃ p, s.Waits name p ∧ s.find .portClass p.spec.classRef = none ∧
      outcome = Reconcile.classMissing p := by
  obtain ⟨⟨rest, sec⟩, member, done⟩ := mem_outcomes.mp listed
  obtain ⟨i, found⟩ := List.mem_iff_getElem?.mp member
  cases h.standing i name _ found with
  | before waits _ approach =>
    cases approach with
    | begun => contradiction
    | read => contradiction
    | ready => contradiction
    | failed absent =>
      cases done
      exact ⟨_, waits, absent, rfl⟩
  | inside _ taken => exact absurd taken fresh
  | after taken => exact absurd taken fresh

theorem Serializes.succeeded (h : Serializes now s names R) {name : String} {outcome : Outcome}
    (listed : (name, outcome) ∈ R.outcomes) (taken : name ∈ R.order) :
    (name, outcome) ∈ (s.passPorts now R.order).1 := by
  obtain ⟨⟨rest, sec⟩, member, done⟩ := mem_outcomes.mp listed
  obtain ⟨i, found⟩ := List.mem_iff_getElem?.mp member
  cases h.standing i name _ found with
  | before _ fresh => exact absurd taken fresh
  | inside _ _ _ agrees listed' =>
    subst done
    obtain rfl := congrArg Prod.fst agrees
    exact listed'
  | after _ listed' =>
    cases done
    exact listed'

theorem Serializes.store_eq (h : Serializes now s names R) (finished : R.Finished) :
    R.store = (s.passPorts now R.order).2 := by
  by_cases outside : ∀ e ∈ R.passes, e.2.stand.isInside = false
  · exact h.settled outside
  · simp only [not_forall] at outside
    obtain ⟨⟨name, rest, sec⟩, member, inside⟩ := outside
    obtain ⟨i, found⟩ := List.mem_iff_getElem?.mp member
    obtain ⟨outcome, done⟩ := finished _ member
    cases h.standing i name _ found with
    | before => exact absurd rfl inside
    | inside _ _ _ agrees _ =>
      subst done
      exact congrArg Prod.snd agrees
    | after => exact absurd rfl inside

end Race

namespace Store

theorem map_passPorts (now : Timestamp) (line : List String) (s : Store) :
    (s.passPorts now line).1.map Prod.fst = line := by
  induction line generalizing s with
  | nil => rfl
  | cons name rest ih => simp only [passPorts, List.map_cons, ih]

theorem passPorts_sublist (now : Timestamp) {order line : List String} {s : Store}
    (sub : order.Sublist line) (distinct : line.Nodup) (unarmed : s.failNextStatusWrite = false)
    (waiting : ∀ name ∈ line, ∃ p, s.Waits name p)
    (failing : ∀ name ∈ line, name ∉ order → ∀ p, s.Waits name p →
      s.find .portClass p.spec.classRef = none) :
    (s.passPorts now line).2 = (s.passPorts now order).2 ∧
      (∀ e ∈ (s.passPorts now order).1, e ∈ (s.passPorts now line).1) ∧
      ∀ name ∈ line, name ∉ order → ∀ p, s.Waits name p →
        (name, Reconcile.classMissing p) ∈ (s.passPorts now line).1 := by
  induction sub generalizing s with
  | slnil => simp [passPorts]
  | @cons order line first sub ih =>
    obtain ⟨absent, distinct⟩ := List.nodup_cons.mp distinct
    obtain ⟨p, waits⟩ := waiting first List.mem_cons_self
    have missing := failing first List.mem_cons_self (fun member => absent (sub.subset member)) p
      waits
    obtain ⟨same, kept, failed⟩ := ih distinct unarmed
      (fun name member => waiting name (List.mem_cons_of_mem first member))
      (fun name member => failing name (List.mem_cons_of_mem first member))
    simp only [passPorts, Reconcile.run_port_classMissing waits missing]
    refine ⟨same, fun e member => List.mem_cons_of_mem _ (kept e member), ?_⟩
    intro name member fresh q waits'
    rcases List.mem_cons.mp member with rfl | member
    · cases waits.stored.symm.trans waits'.stored
      exact List.mem_cons_self
    · exact List.mem_cons_of_mem _ (failed name member fresh q waits')
  | @cons_cons order line first sub ih =>
    obtain ⟨absent, distinct⟩ := List.nodup_cons.mp distinct
    obtain ⟨p, waits⟩ := waiting first List.mem_cons_self
    have alike := Reconcile.alike_port now waits unarmed
    have other : ∀ name ∈ line, name ∉ [first] := by
      intro name member same
      rw [List.mem_singleton.mp same] at member
      exact absent member
    -- a port that waits after the first pass has waited all the time
    have before : ∀ name ∈ line, ∀ q, (s.run now (Reconcile.port first)).2.Waits name q →
        s.Waits name q := fun name member q waits' =>
      ⟨(alike.ports name (other name member)).symm.trans waits'.stored, waits'.named,
        waits'.clusterWide, waits'.pending, waits'.live⟩
    have missing : ∀ name ∈ line, name ∉ order → ∀ q,
        (s.run now (Reconcile.port first)).2.Waits name q →
        (s.run now (Reconcile.port first)).2.find .portClass q.spec.classRef = none := by
      intro name member fresh q waits'
      have ne : name ≠ first := fun same => other name member (List.mem_singleton.mpr same)
      rw [alike.classes]
      exact failing name (List.mem_cons_of_mem first member) (by simp [ne, fresh]) q
        (before name member q waits')
    obtain ⟨same, kept, failed⟩ := ih distinct alike.unarmed
      (fun name member =>
        (waiting name (List.mem_cons_of_mem first member)).imp fun q waits' =>
          waits'.alike alike (other name member))
      missing
    simp only [passPorts]
    refine ⟨same, ?_, ?_⟩
    · intro e member
      rcases List.mem_cons.mp member with rfl | member
      · exact List.mem_cons_self
      · exact List.mem_cons_of_mem _ (kept e member)
    · intro name member fresh q waits'
      rw [List.mem_cons, not_or] at fresh
      rcases List.mem_cons.mp member with rfl | member
      · exact absurd rfl fresh.1
      · exact List.mem_cons_of_mem _
          (failed name member fresh.2 q (waits'.alike alike (other name member)))

end Store

/-- All that have taken the lock in their order, and the others anywhere between them. -/
theorem Race.Serializes.serial {now : Timestamp} {s : Store} {names line : List String} {R : Race}
    (h : Serializes now s names R) (finished : R.Finished) (distinct : names.Nodup)
    (waiting : ∀ name ∈ names, ∃ p, s.Waits name p) (unarmed : s.failNextStatusWrite = false)
    (sub : R.order.Sublist line) (perm : line.Perm names) :
    (s.passPorts now line).2 = R.store ∧ (s.passPorts now line).1.Perm R.outcomes := by
  have named : R.outcomes.map Prod.fst = names := finished.map_outcomes.trans h.named
  have failing : ∀ name ∈ line, name ∉ R.order → ∀ p, s.Waits name p →
      s.find .portClass p.spec.classRef = none := by
    intro name member fresh p waits
    rw [perm.mem_iff, ← named] at member
    obtain ⟨⟨_, outcome⟩, listed, rfl⟩ := List.mem_map.mp member
    obtain ⟨p', waits', missing, _⟩ := h.failed listed fresh
    cases waits.stored.symm.trans waits'.stored
    exact missing
  obtain ⟨same, kept, failed⟩ := Store.passPorts_sublist now sub (perm.nodup_iff.mpr distinct)
    unarmed (fun name member => waiting name (perm.mem_iff.mp member)) failing
  refine ⟨same.trans (h.store_eq finished).symm, List.Perm.symm ?_⟩
  have nodup : R.outcomes.Nodup := by
    apply List.Nodup.of_map Prod.fst
    rwa [named]
  have subset : R.outcomes ⊆ (s.passPorts now line).1 := by
    rintro ⟨name, outcome⟩ listed
    by_cases taken : name ∈ R.order
    · exact kept _ (h.succeeded listed taken)
    · obtain ⟨p, waits, _, is⟩ := h.failed listed taken
      have member : name ∈ line := by
        rw [perm.mem_iff, ← named]
        exact List.mem_map_of_mem listed
      rw [is]
      exact failed name member taken p waits
  have lengths : (s.passPorts now line).1.length ≤ R.outcomes.length := by
    have left := congrArg List.length (Store.map_passPorts now line s)
    have right := congrArg List.length named
    have both := perm.length_eq
    simp only [List.length_map] at left right
    omega
  exact (nodup.subperm subset).perm_of_length_le lengths

/-- However passes over pending ports interleave, they end with the store and the results of the
passes run one after the other in the order in which they took the lock. Passes that fail before
that may stand anywhere. -/
theorem allocations_serializable {s : Store} {names : List String} (distinct : names.Nodup)
    (waiting : ∀ name ∈ names, ∃ p, s.Waits name p) (unarmed : s.failNextStatusWrite = false)
    {schedule : List (Nat × Timestamp)} {R : Race}
    (played : (Race.start s names).play schedule = some R) (finished : R.Finished)
    (now : Timestamp) :
    (∃ line, R.order.Sublist line ∧ line.Perm names) ∧
      (∀ e ∈ R.outcomes, e.1 ∉ R.order → ∃ cause, e.2 = .error cause) ∧
      ∀ line, R.order.Sublist line → line.Perm names →
        (s.passPorts now line).2 = R.store ∧ (s.passPorts now line).1.Perm R.outcomes := by
  have h : Race.Serializes now s names R :=
    (Race.Serializes.start unarmed waiting).play distinct played
  refine ⟨?_, ?_, fun line => h.serial finished distinct waiting unarmed⟩
  · obtain ⟨line, perm, sub⟩ := List.subperm_iff.mp (h.nodup.subperm h.within)
    exact ⟨line, sub, perm⟩
  · rintro ⟨name, outcome⟩ listed fresh
    obtain ⟨p, _, _, is⟩ := h.failed listed fresh
    exact ⟨_, is⟩

open Cluster (noon)

def contendedPorts : Store :=
  (Cluster.after "claims"
    ([.act (.insert .portClass ⟨{ name := some "c" }, ⟨⟩, none⟩ noon),
      .act (.insert .portPool ⟨{ name := some "n" }, ⟨"c", 5000, 5000, true⟩, none⟩ noon),
      .act (.insert .port ⟨{ name := some "a" }, ⟨none, "c"⟩, none⟩ noon),
      .act (.insert .port ⟨{ name := some "b" }, ⟨none, "c"⟩, none⟩ noon),
      .act (.insert .port ⟨{ name := some "z" }, ⟨none, "d"⟩, none⟩ noon)] ++
    Cluster.Move.whole .portPool ⟨none, "n"⟩ 2 ++
    Cluster.Move.whole .portPool ⟨none, "n"⟩ 2 ++
    Cluster.Move.whole .portPool ⟨none, "n"⟩ 3 ++
    Cluster.Move.whole .port ⟨none, "a"⟩ 2 ++
    Cluster.Move.whole .port ⟨none, "b"⟩ 2 ++
    Cluster.Move.whole .port ⟨none, "z"⟩ 2)).store

def contention : List (Nat × Timestamp) :=
  [0, 1, 2, 2, 0, 2, 2, 1, 2, 2, 2, 0, 0, 0].map fun i => (i, noon)

theorem allocations_serializable_contended :
    let s := contendedPorts
    ∃ R, (Race.start s ["a", "z", "b"]).play contention = some R ∧ R.order = ["b", "a"] ∧
      (s.passPorts noon ["b", "z", "a"]).2 = R.store ∧
      (s.passPorts noon ["b", "z", "a"]).1.Perm R.outcomes := by
  intro s
  have ends : ((Race.start s ["a", "z", "b"]).play contention).any
      (fun R => decide (R.Finished ∧ R.order = ["b", "a"])) = true := by decide +kernel
  obtain ⟨R, played, is⟩ := (Option.any_eq_true ..).mp ends
  obtain ⟨finished, order⟩ := of_decide_eq_true is
  have waiting : ∀ name ∈ ["a", "z", "b"], ∃ p, s.Waits name p := by decide +kernel
  obtain ⟨_, _, serial⟩ := allocations_serializable (by decide) waiting (by decide +kernel) played
    finished noon
  have sub : R.order.Sublist ["b", "z", "a"] := by
    rw [order]
    decide
  exact ⟨R, played, order, serial ["b", "z", "a"] sub (by decide)⟩

end HostPorts
