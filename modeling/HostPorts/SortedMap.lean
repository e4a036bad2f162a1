/-!
Finite maps from text keys, kept as lists in strictly increasing key order. Keys compare by code
point, which is also the order of their UTF-8 bytes. Two maps that answer every look-up alike are
equal (`SortedMap.ext_find`).
-/
namespace HostPorts

variable {α : Type}

def findEntry (key : String) : List (String × α) → Option α
  | [] => none
  | (k, v) :: rest => if k = key then some v else findEntry key rest

def insertEntry (key : String) (value : α) : List (String × α) → List (String × α)
  | [] => [(key, value)]
  | (k, v) :: rest =>
    if key < k then (key, value) :: (k, v) :: rest
    else if key = k then (key, value) :: rest
    else (k, v) :: insertEntry key value rest

theorem key_lt_of_not_lt_of_ne {a b : String} (h : ¬ a < b) (ne : a ≠ b) : b < a := by
  apply Classical.byContradiction
  intro n
  exact ne (String.le_antisymm (String.not_lt.mp n) (String.not_lt.mp h))

theorem mem_insertEntry {key : String} {value : α} {e : String × α} {entries : List (String × α)} :
    e ∈ insertEntry key value entries → e = (key, value) ∨ e ∈ entries := by
  induction entries with
  | nil => simp [insertEntry]
  | cons head rest ih =>
    obtain ⟨k, v⟩ := head
    rw [insertEntry]
    grind

theorem insertEntry_sorted (key : String) (value : α) {entries : List (String × α)}
    (sorted : entries.Pairwise (fun a b => a.1 < b.1)) :
    (insertEntry key value entries).Pairwise (fun a b => a.1 < b.1) := by
  induction entries with
  | nil => simp [insertEntry]
  | cons head rest ih =>
    obtain ⟨k, v⟩ := head
    obtain ⟨above, tail⟩ := List.pairwise_cons.mp sorted
    simp only [insertEntry]
    split
    next lt =>
      refine List.pairwise_cons.mpr ⟨?_, sorted⟩
      intro e he
      rcases List.mem_cons.mp he with rfl | he
      · exact lt
      · exact String.lt_trans lt (above e he)
    next notLt =>
      split
      next eq =>
        subst eq
        exact List.pairwise_cons.mpr ⟨above, tail⟩
      next ne =>
        refine List.pairwise_cons.mpr ⟨?_, ih tail⟩
        intro e he
        rcases mem_insertEntry he with rfl | he
        · exact key_lt_of_not_lt_of_ne notLt ne
        · exact above e he

theorem findEntry_insertEntry (key key' : String) (value : α) (entries : List (String × α)) :
    findEntry key' (insertEntry key value entries) =
      if key' = key then some value else findEntry key' entries := by
  induction entries with
  | nil => grind [insertEntry, findEntry]
  | cons head rest ih =>
    obtain ⟨k, v⟩ := head
    grind [insertEntry, findEntry]

theorem findEntry_filter_ne (key key' : String) (entries : List (String × α)) :
    findEntry key' (entries.filter (fun e => e.1 ≠ key)) =
      if key' = key then none else findEntry key' entries := by
  induction entries with
  | nil => simp [findEntry]
  | cons head rest ih =>
    obtain ⟨k, v⟩ := head
    grind [findEntry]

theorem findEntry_eq_none_of_lt {key : String} {entries : List (String × α)}
    (below : ∀ e ∈ entries, key < e.1) : findEntry key entries = none := by
  induction entries with
  | nil => rfl
  | cons head rest ih =>
    obtain ⟨k, v⟩ := head
    have ne : k ≠ key := by
      intro h
      have lt := below (k, v) (by simp)
      simp only [h] at lt
      exact String.lt_irrefl _ lt
    rw [findEntry, if_neg ne]
    exact ih fun e he => below e (by simp [he])

theorem findEntry_eq_some_iff {key : String} {value : α} {entries : List (String × α)}
    (sorted : entries.Pairwise (fun a b => a.1 < b.1)) :
    findEntry key entries = some value ↔ (key, value) ∈ entries := by
  induction entries with
  | nil => simp [findEntry]
  | cons head rest ih =>
    obtain ⟨k, v⟩ := head
    obtain ⟨above, tail⟩ := List.pairwise_cons.mp sorted
    have below := above (key, value)
    have irrefl := String.lt_irrefl key
    grind [findEntry]

theorem entries_eq_of_findEntry {xs ys : List (String × α)}
    (hx : xs.Pairwise (fun a b => a.1 < b.1)) (hy : ys.Pairwise (fun a b => a.1 < b.1))
    (same : ∀ key, findEntry key xs = findEntry key ys) : xs = ys := by
  induction xs generalizing ys with
  | nil =>
    cases ys with
    | nil => rfl
    | cons y ys =>
      have := same y.1
      simp [findEntry] at this
  | cons x xs ih =>
    obtain ⟨k, v⟩ := x
    obtain ⟨aboveX, tailX⟩ := List.pairwise_cons.mp hx
    cases ys with
    | nil =>
      have := same k
      simp [findEntry] at this
    | cons y ys =>
      obtain ⟨k', v'⟩ := y
      obtain ⟨aboveY, tailY⟩ := List.pairwise_cons.mp hy
      have keyEq : k = k' := by
        by_cases h : k < k'
        · have none : findEntry k ((k', v') :: ys) = none := findEntry_eq_none_of_lt (by
            intro e he
            rcases List.mem_cons.mp he with rfl | he
            · exact h
            · exact String.lt_trans h (aboveY e he))
          have := same k
          rw [none] at this
          simp [findEntry] at this
        · by_cases h' : k' < k
          · have none : findEntry k' ((k, v) :: xs) = none := findEntry_eq_none_of_lt (by
              intro e he
              rcases List.mem_cons.mp he with rfl | he
              · exact h'
              · exact String.lt_trans h' (aboveX e he))
            have := same k'
            rw [none] at this
            simp [findEntry] at this
          · exact String.le_antisymm (String.not_lt.mp h') (String.not_lt.mp h)
      subst keyEq
      have valueEq : v = v' := by
        have := same k
        simpa [findEntry] using this
      subst valueEq
      congr 1
      apply ih tailX tailY
      intro key
      by_cases h : k = key
      · subst h
        rw [findEntry_eq_none_of_lt aboveX, findEntry_eq_none_of_lt aboveY]
      · have := same key
        simpa [findEntry, h] using this

structure SortedMap (α : Type) where
  entries : List (String × α)
  sorted : entries.Pairwise (fun a b => a.1 < b.1)
  deriving DecidableEq

namespace SortedMap

def empty : SortedMap α := ⟨[], List.Pairwise.nil⟩

instance : Inhabited (SortedMap α) := ⟨empty⟩

def find? (m : SortedMap α) (key : String) : Option α := findEntry key m.entries

def insert (m : SortedMap α) (key : String) (value : α) : SortedMap α :=
  ⟨insertEntry key value m.entries, insertEntry_sorted key value m.sorted⟩

def erase (m : SortedMap α) (key : String) : SortedMap α :=
  ⟨m.entries.filter (fun e => e.1 ≠ key), m.sorted.filter _⟩

/-- Later pairs replace earlier ones of the same key. -/
def ofList (pairs : List (String × α)) : SortedMap α :=
  pairs.foldl (fun m e => m.insert e.1 e.2) empty

def keys (m : SortedMap α) : List String := m.entries.map (·.1)

def values (m : SortedMap α) : List α := m.entries.map (·.2)

def size (m : SortedMap α) : Nat := m.entries.length

@[simp] theorem find_empty (key : String) : (empty : SortedMap α).find? key = none := rfl

@[simp] theorem find_insert (m : SortedMap α) (key key' : String) (value : α) :
    (m.insert key value).find? key' = if key' = key then some value else m.find? key' :=
  findEntry_insertEntry key key' value m.entries

@[simp] theorem find_erase (m : SortedMap α) (key key' : String) :
    (m.erase key).find? key' = if key' = key then none else m.find? key' :=
  findEntry_filter_ne key key' m.entries

theorem find_eq_some_iff {m : SortedMap α} {key : String} {value : α} :
    m.find? key = some value ↔ (key, value) ∈ m.entries :=
  findEntry_eq_some_iff m.sorted

theorem mem_values {m : SortedMap α} {value : α} :
    value ∈ m.values ↔ ∃ key, m.find? key = some value := by
  simp [values, find_eq_some_iff]

theorem ext_find {m n : SortedMap α} (same : ∀ key, m.find? key = n.find? key) : m = n := by
  obtain ⟨xs, hx⟩ := m
  obtain ⟨ys, hy⟩ := n
  have := entries_eq_of_findEntry hx hy same
  subst this
  rfl

end SortedMap
end HostPorts
