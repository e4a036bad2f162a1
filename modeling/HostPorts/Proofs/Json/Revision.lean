import HostPorts.Proofs.Json.Diff
import Mathlib.Data.List.Forall2

/-!
Patches of values that are read from more than is written. The difference between the written forms
of two values is applied to what the first was read from, which may hold unknown members and
`null`s, and the outcome has to read as the second (`Json.Patches`).
-/
namespace HostPorts

namespace Json

open Edit (applyAll)

variable {α : Type} {item : Json → Option α} {write : α → Json} {x x' : α}

/-- Whatever reads as `x`, the difference from `x` to `x'` leads from it to what reads as `x'`. -/
def Patches (item : Json → Option α) (write : α → Json) (x x' : α) : Prop :=
  ∀ raw, item raw = some x →
    ∃ raw', applyAll (diff [] (write x) (write x')) raw = some raw' ∧ item raw' = some x'

theorem Patches.refl (steady : (write x).Steady) : Patches item write x x := by
  intro raw reads
  rw [Steady] at steady
  exact ⟨raw, by simp [steady], reads⟩

theorem Patches.of_replace (edits : diff [] (write x) (write x') = [.replace [] (write x')])
    (reads : item (write x') = some x') : Patches item write x x' := by
  intro raw _
  rw [edits]
  exact ⟨write x', rfl, reads⟩

theorem patches_str (s s' : String) : Patches str? .str s s' := by
  by_cases same : s = s'
  · subst same
    exact .refl (steady_str s)
  · exact .of_replace (by simp [diff, sameScalar, same]) rfl

theorem patches_int {read : Json → Option Int} {n n' : Int} (reads : read (.int n') = some n') :
    Patches read .int n n' := by
  by_cases same : n = n'
  · subst same
    exact .refl (steady_int n)
  · exact .of_replace (by simp [diff, sameScalar, same]) reads

theorem mapM_eq_some {β : Type} {read : β → Option α} {ys : List β} {xs : List α} :
    ys.mapM read = some xs ↔ List.Forall₂ (fun y x => read y = some x) ys xs := by
  induction ys generalizing xs with
  | nil => simp [eq_comm]
  | cons y ys ih =>
    rw [List.mapM_cons, List.forall₂_cons_left_iff]
    constructor
    · intro reads
      obtain ⟨x, first, reads⟩ := Option.bind_eq_some_iff.mp reads
      obtain ⟨xs', later, reads⟩ := Option.bind_eq_some_iff.mp reads
      exact ⟨x, xs', first, ih.mp later, (Option.some.inj reads).symm⟩
    · rintro ⟨x, xs', first, later, rfl⟩
      rw [first, ih.mpr later]
      rfl

theorem append_items (front new : List Json) :
    applyAll (diffItems [] front.length [] new) (.arr front) = some (.arr (front ++ new)) := by
  induction new generalizing front with
  | nil => simp [diffItems]
  | cons item rest ih =>
    have put : (Edit.add [toString front.length] item).apply (.arr front) =
        some (.arr (front ++ [item])) := by
      simp only [Edit.apply, changeAt, putAt]
      split
      · rfl
      · rw [indexBelow_toString (Nat.lt_succ_self _), Option.map_some, List.insertIdx_length_self]
    have later := ih (front ++ [item])
    rw [List.length_append, List.length_singleton] at later
    rw [diffItems, List.nil_append, Edit.applyAll_cons, put, Option.bind_some, later]
    simp

theorem patches_list_append {xs ys more : List α} (each : List.Forall₂ (Patches item write) xs ys)
    (new : ∀ z ∈ more, item (write z) = some z) :
    Patches (list? item) (fun xs => .arr (xs.map write)) xs (ys ++ more) := by
  -- what stands before the items has been dealt with
  suffices ∀ front items : List Json, items.mapM item = some xs → ∃ items',
      applyAll (diffItems [] front.length (xs.map write) ((ys ++ more).map write))
        (.arr (front ++ items)) = some (.arr (front ++ items')) ∧
      items'.mapM item = some (ys ++ more) by
    intro raw reads
    cases raw with
    | arr items =>
      obtain ⟨items', applied, reads'⟩ := this [] items reads
      exact ⟨.arr items', applied, reads'⟩
    | _ => contradiction
  induction each with
  | nil =>
    intro front items reads
    cases mapM_eq_some.mp reads
    rw [List.append_nil]
    exact ⟨more.map write, append_items front _, mapM_of_reads new⟩
  | @cons x y xs ys first _ ih =>
    intro front items reads
    cases mapM_eq_some.mp reads with
    | @cons raw _ items _ readsFirst readsLater =>
      obtain ⟨raw', applied, reads'⟩ := first raw readsFirst
      obtain ⟨items', appliedLater, readsLater'⟩ :=
        ih (front ++ [raw']) items (mapM_eq_some.mpr readsLater)
      refine ⟨raw' :: items', ?_, mapM_eq_some.mpr (.cons reads' (mapM_eq_some.mp readsLater'))⟩
      have there : (front ++ raw :: items)[front.length]? = some raw := by simp
      have edited := Edit.applyAll_under_item (within_diff (write x) (write y)) there
      rw [List.length_append, List.length_singleton] at appliedLater
      rw [List.cons_append, List.map_cons, List.map_cons, diffItems_cons, Edit.applyAll_append,
        edited, applied]
      simpa using appliedLater

theorem patches_list {xs ys : List α} (each : List.Forall₂ (Patches item write) xs ys) :
    Patches (list? item) (fun xs => .arr (xs.map write)) xs ys := by
  simpa using patches_list_append each (List.forall_mem_nil _)

end Json

namespace Members

variable {members members' : Members} {name : String} {value : Json}

def PutUnder (members : Members) (name : String) (value : Json) (members' : Members) : Prop :=
  members' = members.set name value ∨ members' = members ∧ members.find? name = some value

theorem PutUnder.find (h : members.PutUnder name value members') (name' : String) :
    members'.find? name' = if name' = name then some value else members.find? name' := by
  rcases h with rfl | ⟨rfl, there⟩
  · exact find_set members name name' value
  · by_cases same : name' = name
    · rw [if_pos same, same, there]
    · rw [if_neg same]

theorem PutUnder.find_other (h : members.PutUnder name value members') {name' : String}
    (other : name' ≠ name) : members'.find? name' = members.find? name' :=
  (h.find name').trans (if_neg other)

theorem PutUnder.find_self (h : members.PutUnder name value members') :
    members'.find? name = some value := (h.find name).trans (if_pos rfl)

theorem required_congr {α : Type} {item : Json → Option α}
    (same : members'.find? name = members.find? name) :
    members'.required name item = members.required name item := by
  rw [required, required, same]

theorem required_of_optional {α : Type} {item : Json → Option α} {a : α}
    (reads : members.optional name item = some (some a)) :
    members.required name item = some a := by
  rw [optional] at reads
  split at reads
  next => cases reads
  next raw there =>
    rw [required, there, Option.bind_some]
    cases raw with
    | null => cases Option.some.inj reads
    | _ => simpa [Json.nullable?] using reads

theorem optional_congr {α : Type} {item : Json → Option α}
    (same : members'.find? name = members.find? name) :
    members'.optional name item = members.optional name item := by
  rw [optional, optional, same]

end Members

namespace Json

open Edit (applyAll)

variable {α : Type} {item : Json → Option α} {write : α → Json} {members : Members}
  {name : String} {old value raw raw' : Json} {a a' : α}

theorem apply_editsUnder (there : members.find? name = some raw)
    (applied : applyAll (diff [] old value) raw = some raw') :
    ∃ members', applyAll (editsUnder name (some old) value) (.obj members) =
      some (.obj members') ∧ members.PutUnder name raw' members' := by
  rw [editsUnder, Edit.applyAll_under_member (within_diff old value) there, applied]
  refine ⟨_, rfl, ?_⟩
  split
  next none =>
    rw [none] at applied
    cases applied
    exact Or.inr ⟨rfl, there⟩
  next => exact Or.inl rfl

theorem apply_editsUnder_new (members : Members) (name : String) (value : Json) :
    applyAll (editsUnder name none value) (.obj members) = some (.obj (members.set name value)) :=
  rfl

theorem patch_required (reads : members.required name item = some a)
    (patches : Patches item write a a') :
    ∃ (members' : Members) (raw' : Json),
      applyAll (editsUnder name (some (write a)) (write a')) (.obj members) =
        some (.obj members') ∧
      members.PutUnder name raw' members' ∧ item raw' = some a' := by
  obtain ⟨raw, there, reads⟩ := Option.bind_eq_some_iff.mp reads
  obtain ⟨raw', applied, reads'⟩ := patches raw reads
  obtain ⟨members', edited, put⟩ := apply_editsUnder there applied
  exact ⟨members', raw', edited, put, reads'⟩

theorem patch_optional {before : Option α} (reads : members.optional name item = some before)
    (patches : ∀ a, before = some a → Patches item write a a')
    (written : before = none → item (write a') = some a') :
    ∃ (members' : Members) (raw' : Json),
      applyAll (editsUnder name (before.map write) (write a')) (.obj members) =
        some (.obj members') ∧
      members.PutUnder name raw' members' ∧ item raw' = some a' := by
  cases before with
  | none => exact ⟨_, _, apply_editsUnder_new members name (write a'), Or.inl rfl, written rfl⟩
  | some a => exact patch_required (Members.required_of_optional reads) (patches a rfl)

theorem optional_of_put {members' : Members} (put : members.PutUnder name raw' members')
    (reads : item raw' = some a') (solid : item .null = none) :
    members'.optional name item = some (some a') := by
  rw [Members.optional, put.find_self]
  cases raw' with
  | null =>
    rw [solid] at reads
    contradiction
  | _ => simp [nullable?, reads]

theorem find_record {names : List String} {least : Nat} {known : Members}
    (record : (obj members).record? names least = some known) (among : name ∈ names) :
    known.find? name = members.find? name := by
  rw [record?] at record
  split at record
  · cases record
    rw [Members.find_filter fun k => names.contains k]
    simp [among]
  · contradiction

theorem record_put {names : List String} {least : Nat} {known members' : Members}
    (record : (obj members).record? names least = some known) (among : name ∈ names)
    (put : members.PutUnder name value members') :
    ∃ known', (obj members').record? names least = some known' ∧
      known.PutUnder name value known' := by
  rcases put with rfl | ⟨rfl, there⟩
  · rw [record?] at record
    split at record
    next distinct =>
      cases record
      have filtered : (members.set name value).filter (fun m => names.contains m.1) =
          Members.set (members.filter fun m => names.contains m.1) name value := by
        rw [Members.set, Members.set, List.filter_append, Members.erase, Members.erase,
          List.filter_filter, List.filter_filter]
        simp [among, Bool.and_comm]
      refine ⟨_, ?_, Or.inl rfl⟩
      rw [record?, filtered]
      exact if_pos (Members.names_set distinct value)
    next => contradiction
  · exact ⟨known, record, Or.inr ⟨rfl, (find_record record among).trans there⟩⟩

/-- A record that differs in one field is patched as that field is, where the field can be read by
itself and a record with another value there reads as before but for it. -/
theorem patches_field {β : Type} {read : Json → Option β} {render : β → Json} {x x' : β}
    (name : String) {before : Option α}
    (edits : diff [] (render x) (render x') = editsUnder name (before.map write) (write a'))
    (reads : ∀ raw, read raw = some x → ∃ members : Members, raw = .obj members ∧
      members.optional name item = some before ∧ ∀ members' : Members,
        (∀ other, other ≠ name → members'.find? other = members.find? other) →
          members'.optional name item = some (some a') → read (.obj members') = some x')
    (patches : ∀ a, before = some a → Patches item write a a')
    (written : before = none → item (write a') = some a') (solid : item .null = none) :
    Patches read render x x' := by
  intro raw isX
  obtain ⟨members, rfl, there, again⟩ := reads raw isX
  obtain ⟨members', raw', edited, put, reads'⟩ := patch_optional there patches written
  refine ⟨.obj members', edits ▸ edited, ?_⟩
  exact again members' (fun _ other => put.find_other other) (optional_of_put put reads' solid)

section Maps

variable {members : Members} {m : SortedMap α} {key : String} {raw : Json} {a : α}

def Entry (item : Json → Option α) (e : String × Json) (p : String × α) : Prop :=
  e.1 = p.1 ∧ item e.2 = some p.2

theorem map_eq_some : map? item (.obj members) = some m ↔
    ∃ pairs, List.Forall₂ (Entry item) members pairs ∧ SortedMap.ofList pairs = m := by
  have entry : ∀ (e : String × Json) (p : String × α),
      (item e.2).map (e.1, ·) = some p ↔ Entry item e p := by
    rintro ⟨k, j⟩ ⟨k', a⟩
    cases value : item j <;> simp [Entry, value]
  simp only [map?, Option.map_eq_some_iff, mapM_eq_some, entry]

theorem find_of_entries {entries : List (String × Json)} {pairs : List (String × α)}
    (each : List.Forall₂ (Entry item) entries pairs) (found : findEntry key pairs = some a) :
    ∃ raw, findEntry key entries = some raw ∧ item raw = some a := by
  induction each with
  | nil => contradiction
  | @cons e p _ _ first _ ih =>
    obtain ⟨k, raw⟩ := e
    obtain ⟨k', a'⟩ := p
    obtain ⟨rfl, value⟩ := first
    by_cases same : k = key
    · rw [findEntry, if_pos same] at found ⊢
      cases found
      exact ⟨raw, rfl, value⟩
    · rw [findEntry, if_neg same] at found ⊢
      exact ih found

theorem find_of_map (reads : map? item (.obj members) = some m) (found : m.find? key = some a) :
    ∃ raw, members.find? key = some raw ∧ item raw = some a := by
  obtain ⟨pairs, each, rfl⟩ := map_eq_some.mp reads
  rw [SortedMap.find_ofList] at found
  exact find_of_entries (List.forall₂_reverse_iff.mpr each) found

theorem map_set (reads : map? item (.obj members) = some m) (value : item raw = some a) :
    map? item (.obj (members.set key raw)) = some (m.insert key a) := by
  obtain ⟨pairs, each, rfl⟩ := map_eq_some.mp reads
  have kept : List.Forall₂ (Entry item) (members.erase key)
      (pairs.filter fun p => p.1 ≠ key) := by
    clear reads
    rw [Members.erase]
    induction each with
    | nil => exact .nil
    | @cons e p _ _ first _ ih =>
      rw [List.filter_cons, List.filter_cons, first.1]
      split
      · exact .cons first ih
      · exact ih
  have last : Entry item (key, raw) (key, a) := ⟨rfl, value⟩
  refine map_eq_some.mpr ⟨_, List.rel_append kept (.cons last .nil), ?_⟩
  apply SortedMap.ext_find
  intro key'
  rw [SortedMap.find_ofList, SortedMap.find_insert, SortedMap.find_ofList, List.reverse_append,
    List.reverse_singleton, List.singleton_append, findEntry, ← List.filter_reverse,
    findEntry_filter_ne]
  by_cases same : key' = key
  · simp [same]
  · simp [same, Ne.symm same]

theorem findEntry_map {β : Type} (f : α → β) (entries : List (String × α)) :
    findEntry key (entries.map fun e => (e.1, f e.2)) = (findEntry key entries).map f := by
  induction entries with
  | nil => rfl
  | cons e rest ih =>
    obtain ⟨k, v⟩ := e
    by_cases same : k = key <;> simp [findEntry, same, ih]

theorem patch_entry {m : SortedMap String} (reads : map? str? (.obj members) = some m)
    (key text : String) :
    ∃ members', applyAll (editsUnder key ((m.find? key).map .str) (.str text)) (.obj members) =
      some (.obj members') ∧ map? str? (.obj members') = some (m.insert key text) := by
  cases found : m.find? key with
  | none => exact ⟨_, apply_editsUnder_new members key _, map_set reads rfl⟩
  | some old =>
    obtain ⟨raw, there, value⟩ := find_of_map reads found
    obtain ⟨raw', applied, value'⟩ := patches_str old text raw value
    obtain ⟨members', edited, put⟩ := apply_editsUnder there applied
    refine ⟨members', edited, ?_⟩
    rcases put with rfl | ⟨rfl, there'⟩
    · exact map_set reads value'
    · -- nothing was to be done
      rw [there] at there'
      cases there'
      rw [value] at value'
      cases value'
      rw [reads]
      congr 1
      apply SortedMap.ext_find
      intro key'
      rw [SortedMap.find_insert]
      split
      next same => rw [same, found]
      next => rfl

theorem patch_entries {m cur : SortedMap String} {entries : List (String × String)}
    (distinct : (entries.map (·.1)).Nodup) (ahead : ∀ e ∈ entries, cur.find? e.1 = m.find? e.1)
    (reads : map? str? (.obj members) = some cur) :
    ∃ members', applyAll
        (entries.flatMap fun e => editsUnder e.1 ((m.find? e.1).map .str) (.str e.2))
        (.obj members) = some (.obj members') ∧
      map? str? (.obj members') = some (entries.foldl (fun m e => m.insert e.1 e.2) cur) := by
  induction entries generalizing cur members with
  | nil => exact ⟨members, rfl, reads⟩
  | cons e rest ih =>
    obtain ⟨once, others⟩ := List.nodup_cons.mp distinct
    obtain ⟨here, later⟩ := List.forall_mem_cons.mp ahead
    obtain ⟨mid, edited, reads'⟩ := patch_entry reads e.1 e.2
    have ahead' : ∀ e' ∈ rest, (cur.insert e.1 e.2).find? e'.1 = m.find? e'.1 := by
      intro e' member
      have other : e'.1 ≠ e.1 := fun same => once (List.mem_map.mpr ⟨e', member, same⟩)
      rw [SortedMap.find_insert, if_neg other, later e' member]
    obtain ⟨members', edited', reads''⟩ := ih others ahead' reads'
    refine ⟨members', ?_, reads''⟩
    rw [List.flatMap_cons, Edit.applyAll_append, ← here, edited, Option.bind_some, edited']

theorem patches_stringMap {m m' : SortedMap String}
    (kept : ∀ key, m.find? key ≠ none → m'.find? key ≠ none) :
    Patches (map? str?) ofStringMap m m' := by
  intro raw reads
  cases raw with
  | obj members =>
    have covered : ∀ e ∈ m.entries.map fun e => (e.1, Json.str e.2),
        e.1 ∈ (m'.entries.map fun e => (e.1, Json.str e.2)).map (·.1) := by
      simp only [List.map_map]
      intro e listed
      obtain ⟨⟨k, v⟩, member, rfl⟩ := List.mem_map.mp listed
      have found := SortedMap.find_eq_some_iff.mpr member
      obtain ⟨v', found'⟩ := Option.ne_none_iff_exists'.mp (kept k (by simp [found]))
      exact List.mem_map.mpr ⟨(k, v'), SortedMap.find_eq_some_iff.mp found', rfl⟩
    obtain ⟨members', edited, reads'⟩ := patch_entries m'.keys_distinct (fun _ _ => rfl) reads
    refine ⟨.obj members', ?_, ?_⟩
    · simp only [ofStringMap]
      rw [diff_obj, removals_nil covered, List.append_nil, List.flatMap_map]
      simp only [findEntry_map]
      exact edited
    · rw [reads']
      congr 1
      apply SortedMap.ext_find
      intro key
      rw [SortedMap.find_insertAll, Members.findEntry_reverse m'.keys_distinct]
      change (m'.find? key).or (m.find? key) = m'.find? key
      cases found : m'.find? key with
      | some => rfl
      | none =>
        cases found' : m.find? key with
        | none => rfl
        | some => exact absurd found (kept key (by simp [found']))
  | _ => contradiction

end Maps

end Json
end HostPorts
