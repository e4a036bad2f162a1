import HostPorts.Proofs.Store.Effect
import HostPorts.Reconcile.Reconciler

/-!
Reads of a pass that nobody disturbs. They change nothing, so what a pass does on a store is what is
left of it to do once it has read (`ReadsTo`): both end alike and ask for the same writes.
-/
namespace HostPorts

/-- The writes that a pass asks for as it runs, each with the store that it meets. -/
def Store.writesOf {α : Type} (now : Timestamp) : Pass α → Store → List (Store × Request)
  | .done _, _ => []
  | .call r next, s =>
    (if r.isRead then [] else [(s, r)]) ++ writesOf now (next (s.answer now r).1) (s.answer now r).2
  | .alone rest, s => writesOf now rest s

namespace Pass

variable {α : Type} {now : Timestamp} {s : Store} {p q rest : Pass α}

/-- On this store a pass comes to another by reads alone. -/
inductive ReadsTo (now : Timestamp) (s : Store) : Pass α → Pass α → Prop where
  | here (p : Pass α) : ReadsTo now s p p
  | read {r : Request} {next : r.Reply → Pass α} {p : Pass α} (isRead : r.isRead = true)
      (rest : ReadsTo now s (next (s.answer now r).1) p) : ReadsTo now s (.call r next) p
  | alone {rest p : Pass α} (inside : ReadsTo now s rest p) : ReadsTo now s (.alone rest) p

namespace ReadsTo

theorem trans (h : p.ReadsTo now s q) (h' : q.ReadsTo now s rest) : p.ReadsTo now s rest := by
  induction h with
  | here => exact h'
  | read isRead _ ih => exact .read isRead (ih h')
  | alone _ ih => exact .alone (ih h')

theorem run_eq (h : p.ReadsTo now s q) : s.run now p = s.run now q := by
  induction h with
  | here => rfl
  | read isRead _ ih =>
    rw [← ih, Store.run, Pass.run, Store.answer_of_isRead isRead, Store.run]
  | alone _ ih => exact ih

theorem writesOf_eq (h : p.ReadsTo now s q) : s.writesOf now p = s.writesOf now q := by
  induction h with
  | here => rfl
  | read isRead _ ih =>
    rw [← ih, Store.writesOf, if_pos isRead, Store.answer_of_isRead isRead, List.nil_append]
  | alone _ ih => exact ih

end ReadsTo
end Pass

namespace Reconcile

variable {s : Store} {k : Kind} {ref : ObjectRef} {now : Timestamp}

theorem reads_find {o : Object k} {next : Option (Object k) → Pass Outcome}
    (found : s.find k ref.key = some o) : (find k ref next).ReadsTo now s (next (some o)) := by
  change (s.table k).find? ref.key = some o at found
  refine .read rfl ?_
  simp only [Store.answer, Table.get, found]
  exact .here _

theorem reads_find_absent {next : Option (Object k) → Pass Outcome}
    (absent : s.find k ref.key = none) : (find k ref next).ReadsTo now s (next none) := by
  change (s.table k).find? ref.key = none at absent
  refine .read rfl ?_
  simp only [Store.answer, Table.get, absent, StoreError.isNotFound, if_true]
  exact .here _

theorem reads_ask_get {o : Object k} {next : Object k → Pass Outcome}
    (found : s.find k ref.key = some o) : (ask (.get k ref) next).ReadsTo now s (next o) := by
  change (s.table k).find? ref.key = some o at found
  refine .read rfl ?_
  simp only [Store.answer, Table.get, found]
  exact .here _

theorem reads_ask_get_absent {next : Object k → Pass Outcome} (absent : s.find k ref.key = none) :
    (ask (.get k ref) next).ReadsTo now s (.done (.error (.store (.notFound k ref.key)))) := by
  change (s.table k).find? ref.key = none at absent
  refine .read rfl ?_
  simp only [Store.answer, Table.get, absent]
  exact .here _

theorem reads_ask_list {next : List (Object k) → Pass Outcome} :
    (ask (.list k) next).ReadsTo now s (next (s.table k).values) := .read rfl (.here _)

theorem reads_ask_listPods {ns : String} {next : List Pod → Pass Outcome} :
    (ask (.listPods ns) next).ReadsTo now s
      (next (s.pods.values.filter fun p => p.metadata.namespace_ = some ns)) := .read rfl (.here _)

end Reconcile
end HostPorts
