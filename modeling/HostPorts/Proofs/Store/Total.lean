import Mathlib.Algebra.Order.BigOperators.Group.List
import Mathlib.Algebra.Order.Ring.Nat
import HostPorts.Proofs.Store.Effect

/-!
Sums over the stored objects. A new entry exchanges its own value for that of the entry it replaces
(`Store.Puts.total`), so a measure of a whole store is followed by the one entry that changes.
-/
namespace HostPorts

theorem sum_map_add_le {β : Type} {xs : List β} {f g : β → Nat} {x : β} {d : Nat}
    (le : ∀ y ∈ xs, f y ≤ g y) (listed : x ∈ xs) (gain : f x + d ≤ g x) :
    (xs.map f).sum + d ≤ (xs.map g).sum := by
  induction xs with
  | nil => exact absurd listed List.not_mem_nil
  | cons y rest ih =>
    have rest_le : (rest.map f).sum ≤ (rest.map g).sum :=
      List.sum_le_sum fun z among => le z (List.mem_cons_of_mem y among)
    have head_le := le y List.mem_cons_self
    simp only [List.map_cons, List.sum_cons]
    rcases List.mem_cons.mp listed with rfl | among
    · omega
    · have := ih (fun z among => le z (List.mem_cons_of_mem y among)) among
      omega

namespace SortedMap

variable {α : Type} {m m' : SortedMap α} {key : String} {f g : α → Nat}

def total (m : SortedMap α) (f : α → Nat) : Nat := (m.values.map f).sum

theorem total_insertEntry {value : α} {entries : List (String × α)}
    (sorted : entries.Pairwise (fun a b => a.1 < b.1)) :
    ((insertEntry key value entries).map (f ·.2)).sum + (findEntry key entries).elim 0 f =
      (entries.map (f ·.2)).sum + f value := by
  induction entries with
  | nil => simp [insertEntry, findEntry]
  | cons head rest ih =>
    obtain ⟨k, v⟩ := head
    obtain ⟨above, tail⟩ := List.pairwise_cons.mp sorted
    by_cases before : key < k
    · have absent : findEntry key ((k, v) :: rest) = none := by
        apply findEntry_eq_none_of_lt
        intro e listed
        rcases List.mem_cons.mp listed with rfl | listed
        · exact before
        · exact String.lt_trans before (above e listed)
      simp only [insertEntry, before, if_true, absent, List.map_cons, List.sum_cons, Option.elim]
      omega
    · by_cases same : key = k
      · subst same
        simp only [insertEntry, before, if_false, if_true, findEntry, List.map_cons, List.sum_cons,
          Option.elim]
        omega
      · have other : k ≠ key := Ne.symm same
        simp only [insertEntry, before, same, if_false, findEntry, other, List.map_cons,
          List.sum_cons]
        have := ih tail
        omega

theorem total_insert (m : SortedMap α) (key : String) (value : α) :
    (m.insert key value).total f + (m.find? key).elim 0 f = m.total f + f value := by
  simpa [total, values, insert, find?, Function.comp_def] using total_insertEntry m.sorted

theorem total_erase (m : SortedMap α) (key : String) :
    (m.erase key).total f + (m.find? key).elim 0 f = m.total f := by
  cases found : m.find? key with
  | none =>
    have same : m.erase key = m := by
      apply ext_find
      intro key'
      by_cases eq : key' = key <;> simp [eq, found]
    simp [same]
  | some value =>
    have back : (m.erase key).insert key value = m := by
      apply ext_find
      intro key'
      by_cases eq : key' = key <;> simp [eq, found]
    have exchanged := total_insert (f := f) (m.erase key) key value
    rw [back, find_erase, if_pos rfl] at exchanged
    exact exchanged.symm

theorem total_of_beside {new : Option α} (here : m'.find? key = new)
    (beside : ∀ key', key' ≠ key → m'.find? key' = m.find? key') :
    m'.total f + (m.find? key).elim 0 f = m.total f + new.elim 0 f := by
  cases new with
  | none =>
    have erased : m' = m.erase key := by
      apply ext_find
      intro key'
      by_cases eq : key' = key
      · simp [eq, here]
      · simp [eq, beside key' eq]
    rw [erased]
    exact total_erase m key
  | some value =>
    have inserted : m' = m.insert key value := by
      apply ext_find
      intro key'
      by_cases eq : key' = key
      · simp [eq, here]
      · simp [eq, beside key' eq]
    rw [inserted]
    exact total_insert m key value

theorem total_add_le {value : α} {d : Nat}
    (le : ∀ key value, m.find? key = some value → f value ≤ g value)
    (found : m.find? key = some value) (gain : f value + d ≤ g value) :
    m.total f + d ≤ m.total g := by
  apply sum_map_add_le
  · intro value listed
    obtain ⟨key, found⟩ := mem_values.mp listed
    exact le key value found
  · exact mem_values.mpr ⟨key, found⟩
  · exact gain

theorem total_le_total (le : ∀ key value, m.find? key = some value → f value ≤ g value) :
    m.total f ≤ m.total g := by
  apply List.sum_le_sum
  intro value listed
  obtain ⟨key, found⟩ := mem_values.mp listed
  exact le key value found

end SortedMap

namespace Store

variable {s s' : Store} {k : Kind} {key : String} {new : Option (Object k)}

def total (s : Store) (f : (k : Kind) → Object k → Nat) : Nat :=
  (Kind.all.map fun k => (s.table k).total (f k)).sum

theorem Puts.table_total (puts : s.Puts s' k key new) (f : Object k → Nat) :
    (s'.table k).total f + (s.find k key).elim 0 f = (s.table k).total f + new.elim 0 f :=
  SortedMap.total_of_beside puts.here puts.beside

theorem Puts.total (puts : s.Puts s' k key new) (f : (k : Kind) → Object k → Nat) :
    s'.total f + (s.find k key).elim 0 (f k) = s.total f + new.elim 0 (f k) := by
  have listed : k ∈ Kind.all := by cases k <;> decide
  have distinct : Kind.all.Nodup := by decide
  have others : (Kind.all.erase k).map (fun k' => (s'.table k').total (f k')) =
      (Kind.all.erase k).map fun k' => (s.table k').total (f k') := by
    apply List.map_congr_left
    intro k' among
    rw [puts.other k' (distinct.mem_erase_iff.mp among).1]
  have exchanged := puts.table_total (f k)
  have after := List.sum_map_erase (fun k' => (s'.table k').total (f k')) listed
  have before := List.sum_map_erase (fun k' => (s.table k').total (f k')) listed
  rw [others] at after
  simp only [Store.total]
  omega

theorem total_le_total {f g : (k : Kind) → Object k → Nat}
    (le : ∀ k (o : Object k), f k o ≤ g k o) : s.total f ≤ s.total g :=
  List.sum_le_sum fun k _ => SortedMap.total_le_total fun _ o _ => le k o

theorem total_add_le {f g : (k : Kind) → Object k → Nat} {o : Object k} {d : Nat}
    (le : ∀ k (o : Object k), f k o ≤ g k o) (found : s.find k key = some o)
    (gain : f k o + d ≤ g k o) : s.total f + d ≤ s.total g := by
  apply sum_map_add_le (x := k)
  · exact fun k' _ => SortedMap.total_le_total fun _ o _ => le k' o
  · cases k <;> decide
  · exact SortedMap.total_add_le (fun _ o _ => le k o) found gain

end Store
end HostPorts
