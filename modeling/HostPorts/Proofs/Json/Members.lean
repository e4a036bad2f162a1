import HostPorts.Json.Basic

/-!
Members of JSON objects, by name. A reader sees nothing of an object but what stands under each
name, so an object is described by its look-ups (`Members.find?`), and a writer by what the reader
makes of the values that it writes (`Json.Inverts`).
-/
namespace HostPorts

namespace Members

variable {α : Type} {members : Members} {name : String}

theorem findEntry_append {left right : List (String × α)} :
    findEntry name (left ++ right) = (findEntry name left).or (findEntry name right) := by
  induction left with
  | nil => rfl
  | cons head rest ih =>
    obtain ⟨k, v⟩ := head
    by_cases same : k = name <;> simp [findEntry, same, ih]

theorem findEntry_eq_none {entries : List (String × α)} :
    findEntry name entries = none ↔ name ∉ entries.map (·.1) := by
  induction entries with
  | nil => simp [findEntry]
  | cons head rest ih =>
    obtain ⟨k, v⟩ := head
    by_cases same : k = name
    · simp [findEntry, same]
    · simp only [findEntry, if_neg same, ih, List.map_cons, List.mem_cons, not_or]
      exact ⟨fun absent => ⟨Ne.symm same, absent⟩, fun absent => absent.2⟩

theorem findEntry_reverse {entries : List (String × α)}
    (distinct : (entries.map (·.1)).Nodup) :
    findEntry name entries.reverse = findEntry name entries := by
  induction entries with
  | nil => rfl
  | cons head rest ih =>
    obtain ⟨k, v⟩ := head
    obtain ⟨once, others⟩ := List.nodup_cons.mp distinct
    rw [List.reverse_cons, findEntry_append, ih others, findEntry]
    by_cases same : k = name
    · rw [← same, findEntry_eq_none.mpr once]
      simp [findEntry]
    · simp [findEntry, same]

@[simp] theorem find_nil (name : String) : find? [] name = none := rfl

@[simp] theorem find_append (left right : Members) (name : String) :
    find? (left ++ right) name = (find? right name).or (find? left name) := by
  rw [find?, List.reverse_append, findEntry_append]
  rfl

@[simp] theorem find_cons (k : String) (v : Json) (rest : Members) (name : String) :
    find? ((k, v) :: rest) name = (find? rest name).or (if k = name then some v else none) := by
  rw [← List.singleton_append, find_append]
  by_cases same : k = name <;> simp [find?, findEntry, same]

@[simp] theorem find_member (k : String) (write : α → Json) (value : Option α) (name : String) :
    find? (Json.member k write value) name = if k = name then value.map write else none := by
  cases value <;> simp [Json.member]

theorem find_eq_none : members.find? name = none ↔ name ∉ members.map (·.1) := by
  rw [find?, findEntry_eq_none, List.map_reverse, List.mem_reverse]

theorem find_ne_none : members.find? name ≠ none ↔ name ∈ members.map (·.1) := by
  rw [ne_eq, find_eq_none, Classical.not_not]

theorem find_of_distinct (distinct : (members.map (·.1)).Nodup) :
    members.find? name = findEntry name members := findEntry_reverse distinct

theorem findEntry_of_mem {entries : List (String × α)} (distinct : (entries.map (·.1)).Nodup)
    {value : α} (member : (name, value) ∈ entries) : findEntry name entries = some value := by
  induction entries with
  | nil => contradiction
  | cons head rest ih =>
    obtain ⟨k, v⟩ := head
    obtain ⟨once, others⟩ := List.nodup_cons.mp distinct
    rcases List.mem_cons.mp member with here | later
    · cases here
      exact if_pos rfl
    · have differ : k ≠ name := by
        rintro rfl
        exact once (List.mem_map.mpr ⟨_, later, rfl⟩)
      rw [findEntry, if_neg differ, ih others later]

theorem mem_of_findEntry {entries : List (String × α)} {value : α}
    (found : findEntry name entries = some value) : (name, value) ∈ entries := by
  induction entries with
  | nil => contradiction
  | cons head rest ih =>
    obtain ⟨k, v⟩ := head
    rw [findEntry] at found
    split at found
    next same =>
      cases found
      exact same ▸ List.mem_cons_self
    next => exact List.mem_cons_of_mem _ (ih found)

theorem flatMap_of_only {β : Type} {entries : List (String × α)} {f : String × α → List β}
    {value : α} (distinct : (entries.map (·.1)).Nodup)
    (others : ∀ e ∈ entries, e.1 ≠ name → f e = [])
    (found : findEntry name entries = some value) : entries.flatMap f = f (name, value) := by
  induction entries with
  | nil => contradiction
  | cons head rest ih =>
    obtain ⟨k, v⟩ := head
    obtain ⟨once, distinct'⟩ := List.nodup_cons.mp distinct
    obtain ⟨first, later⟩ := List.forall_mem_cons.mp others
    rw [findEntry] at found
    rw [List.flatMap_cons]
    split at found
    next same =>
      cases found
      subst same
      have silent : rest.flatMap f = [] := by
        rw [List.flatMap_eq_nil_iff]
        intro e member
        refine later e member ?_
        intro is
        exact once (List.mem_map.mpr ⟨e, member, is⟩)
      rw [silent, List.append_nil]
    next differ => rw [first differ, List.nil_append, ih distinct' later found]

theorem find_filter (p : String → Bool) :
    find? (members.filter fun m => p m.1) name = if p name then members.find? name else none := by
  induction members with
  | nil => simp
  | cons head rest ih =>
    obtain ⟨k, v⟩ := head
    rw [List.filter_cons, find_cons]
    cases keep : p k with
    | true =>
      rw [if_pos rfl, find_cons, ih]
      by_cases same : k = name
      · simp [← same, keep]
      · simp [same]
    | false =>
      rw [if_neg nofun, ih]
      by_cases same : k = name
      · simp [← same, keep]
      · simp [same]

def erase (members : Members) (name : String) : Members := members.filter fun m => m.1 ≠ name

def set (members : Members) (name : String) (value : Json) : Members :=
  members.erase name ++ [(name, value)]

@[simp] theorem find_erase (members : Members) (name name' : String) :
    (members.erase name).find? name' = if name' = name then none else members.find? name' := by
  rw [erase, find_filter fun k => decide (k ≠ name)]
  by_cases same : name' = name <;> simp [same]

@[simp] theorem find_set (members : Members) (name name' : String) (value : Json) :
    (members.set name value).find? name' =
      if name' = name then some value else members.find? name' := by
  rw [set, find_append, find_erase]
  by_cases same : name' = name
  · simp [same]
  · simp [same, Ne.symm same]

theorem set_set (members : Members) (name : String) (value value' : Json) :
    (members.set name value).set name value' = members.set name value' := by
  simp [set, erase, List.filter_append]

theorem names_set (distinct : (members.map (·.1)).Nodup) (value : Json) :
    ((members.set name value).map (·.1)).Nodup := by
  have kept : ((members.erase name).map (·.1)).Nodup :=
    distinct.sublist (List.filter_sublist.map _)
  rw [set, List.map_append, List.nodup_append]
  refine ⟨kept, by simp, ?_⟩
  intro k member k' last
  rw [List.map_singleton, List.mem_singleton] at last
  rintro rfl
  have erased : (members.erase name).find? k = none := by simp [last]
  exact find_eq_none.mp erased member

theorem mem_names_member {k : String} {write : α → Json} {value : Option α} :
    name ∈ (Json.member k write value).map (·.1) ↔ name = k ∧ value ≠ none := by
  cases value <;> simp [Json.member]

end Members

namespace Json

variable {α : Type} {item : Json → Option α} {write : α → Json} {a : α}

theorem eq_obj_of_members {j : Json} {members : Members} (is : j.members? = some members) :
    j = .obj members := by
  cases j with
  | obj => rw [Option.some.inj is]
  | _ => contradiction

theorem record_obj (members : Members) (distinct : (members.map (·.1)).Nodup)
    (names : List String) (least : Nat) :
    ∃ known, (obj members).record? names least = some known ∧
      ∀ name ∈ names, known.find? name = members.find? name := by
  refine ⟨members.filter fun m => names.contains m.1, ?_, ?_⟩
  · exact if_pos (distinct.sublist (List.filter_sublist.map _))
  · intro name among
    rw [Members.find_filter fun k => names.contains k]
    simp [among]

/-- What is written for the value is not `null` and reads as that value. -/
structure Inverts (item : Json → Option α) (write : α → Json) (a : α) : Prop where
  solid : write a ≠ .null
  reads : item (write a) = some a

theorem Inverts.nullable (h : Inverts item write a) :
    (write a).nullable? item = some (some a) := by
  have reads := h.reads
  cases written : write a with
  | null => exact absurd written h.solid
  | _ =>
    rw [written] at reads
    simp [nullable?, reads]

theorem inverts_str (s : String) : Inverts str? .str s := ⟨nofun, rfl⟩

theorem inverts_bool (b : Bool) : Inverts bool? .bool b := ⟨nofun, rfl⟩

theorem inverts_ofUInt16 (n : UInt16) : Inverts uint16? ofUInt16 n := by
  refine ⟨nofun, ?_⟩
  have below := n.toNat_lt
  simp [ofUInt16, uint16?, natBelow?, below]

theorem inverts_ofInt64 (n : Int64) : Inverts int64? ofInt64 n := by
  refine ⟨nofun, ?_⟩
  have above := n.le_toInt
  have below := n.toInt_lt
  have within : -9223372036854775808 ≤ n.toInt ∧ n.toInt < 9223372036854775808 := by omega
  simp [ofInt64, int64?, within]

theorem mapM_of_reads {β : Type} {read : β → Option α} {write : α → β} {xs : List α}
    (reads : ∀ x ∈ xs, read (write x) = some x) : (xs.map write).mapM read = some xs := by
  induction xs with
  | nil => rfl
  | cons x rest ih =>
    have first := reads x List.mem_cons_self
    have later := ih fun y member => reads y (List.mem_cons_of_mem x member)
    rw [List.map_cons, List.mapM_cons, first, later]
    rfl

theorem inverts_list {xs : List α} (h : ∀ x ∈ xs, Inverts item write x) :
    Inverts (list? item) (fun xs => .arr (xs.map write)) xs :=
  ⟨nofun, mapM_of_reads fun x member => (h x member).reads⟩

theorem inverts_ofStrings (xs : List String) : Inverts (list? str?) ofStrings xs :=
  inverts_list fun s _ => inverts_str s

end Json

namespace SortedMap

variable {α : Type}

theorem find_insertAll (m : SortedMap α) (pairs : List (String × α)) (key : String) :
    (pairs.foldl (fun m e => m.insert e.1 e.2) m).find? key =
      (findEntry key pairs.reverse).or (m.find? key) := by
  induction pairs generalizing m with
  | nil => simp [findEntry]
  | cons head rest ih =>
    obtain ⟨k, v⟩ := head
    rw [List.foldl_cons, ih, find_insert, List.reverse_cons, Members.findEntry_append,
      Option.or_assoc]
    by_cases same : k = key
    · simp [findEntry, same]
    · simp [findEntry, same, Ne.symm same]

theorem find_ofList (pairs : List (String × α)) (key : String) :
    (ofList pairs).find? key = findEntry key pairs.reverse := by
  rw [ofList, find_insertAll, find_empty, Option.or_none]

theorem keys_distinct (m : SortedMap α) : (m.entries.map (·.1)).Nodup :=
  List.pairwise_map.mpr (m.sorted.imp fun lt => String.ne_of_lt lt)

theorem ofList_entries (m : SortedMap α) : ofList m.entries = m := by
  apply ext_find
  intro key
  rw [find_ofList, Members.findEntry_reverse m.keys_distinct]
  rfl

end SortedMap

theorem Json.inverts_ofStringMap (m : SortedMap String) :
    Json.Inverts (Json.map? Json.str?) Json.ofStringMap m := by
  refine ⟨nofun, ?_⟩
  have entries : (m.entries.map fun e => (e.1, Json.str e.2)).mapM
      (fun e => (Json.str? e.2).map (e.1, ·)) = some m.entries :=
    Json.mapM_of_reads fun _ _ => rfl
  simp only [Json.ofStringMap, Json.map?, entries, Option.map_some, SortedMap.ofList_entries]

namespace Members

variable {α : Type} {members : Members} {name : String} {item : Json → Option α}
  {write : α → Json}

theorem required_inverts {a : α} (found : members.find? name = some (write a))
    (inverts : Json.Inverts item write a) : members.required name item = some a := by
  rw [required, found, Option.bind_some, inverts.reads]

theorem optional_inverts (members : Members) (name : String) (value : Option α)
    (found : members.find? name = value.map write)
    (inverts : ∀ a, value = some a → Json.Inverts item write a) :
    members.optional name item = some value := by
  rw [optional, found]
  cases value with
  | none => rfl
  | some a => exact (inverts a rfl).nullable

theorem optional_obj {inner : Members} {a : α} (found : members.find? name = some (.obj inner))
    (reads : item (.obj inner) = some a) : members.optional name item = some (some a) := by
  rw [optional, found]
  simp [Json.nullable?, reads]

theorem defaulted_inverts {a value : α} (found : members.find? name = some (write a))
    (inverts : Json.Inverts item write a) : members.defaulted name value item = some a := by
  rw [defaulted, found]
  exact inverts.reads

end Members
end HostPorts
