import HostPorts.Proofs.Json.Apply

/-!
The difference of two values, put together from the differences below each step. A value made of
members with names of their own (`Members.Tidy`) has none from itself, and where two such values
differ under one name only, that name alone is edited (`Tidy.diff`).
-/
namespace HostPorts

namespace Json

open Edit (under applyAll)

theorem removals_under (step : String) (path : List String) (left right : Members) :
    removals (step :: path) left right = (removals path left right).map (under step) := by
  rw [removals, removals, List.map_filterMap]
  congr 1
  funext m
  split <;> rfl

mutual

theorem diff_under (step : String) (path : List String) (left : Json) :
    (right : Json) → diff (step :: path) left right = (diff path left right).map (under step)
  | .obj members => by
    cases left with
    | obj old =>
      simp only [diff, List.map_append, removals_under, diffMembers_under step path old members]
    | _ => rfl
  | .arr items => by
    cases left with
    | arr old => exact diffItems_under step path 0 old items
    | _ => rfl
  | .null | .bool _ | .int _ | .real _ _ | .str _ => by
    simp only [diff]
    split <;> rfl

theorem diffMembers_under (step : String) (path : List String) (left : Members) :
    (right : List (String × Json)) →
      diffMembers (step :: path) left right = (diffMembers path left right).map (under step)
  | [] => rfl
  | (name, value) :: rest => by
    rw [diffMembers, diffMembers, List.map_append, diffMembers_under step path left rest]
    congr 1
    cases findEntry name left with
    | none => rfl
    | some old => exact diff_under step (path ++ [name]) old value

theorem diffItems_under (step : String) (path : List String) (index : Nat) (left : List Json) :
    (right : List Json) →
      diffItems (step :: path) index left right = (diffItems path index left right).map (under step)
  | [] => by simp [diffItems, under]
  | item :: rest => by
    cases left with
    | nil =>
      rw [diffItems, diffItems, List.map_cons, diffItems_under step path (index + 1) [] rest]
      rfl
    | cons old olds =>
      simp only [diffItems, List.map_append]
      rw [diffItems_under step path (index + 1) olds rest]
      congr 1
      exact diff_under step (path ++ [toString index]) old item

end

/-- The edits that put a value under a name, given what stands there. -/
def editsUnder (name : String) (old : Option Json) (value : Json) : List Edit :=
  match old with
  | some old => (diff [] old value).map (under name)
  | none => [.add [name] value]

theorem diff_obj (left right : Members) :
    diff [] (.obj left) (.obj right) =
      right.flatMap (fun m => editsUnder m.1 (findEntry m.1 left) m.2) ++
        removals [] left right := by
  suffices diffMembers [] left right =
      right.flatMap fun m => editsUnder m.1 (findEntry m.1 left) m.2 by rw [diff, this]
  induction right with
  | nil => rfl
  | cons m rest ih =>
    rw [diffMembers, List.flatMap_cons, ih, List.nil_append]
    congr 1
    cases findEntry m.1 left with
    | none => rfl
    | some old => exact diff_under m.1 [] old m.2

theorem diffItems_cons (index : Nat) (old item : Json) (olds rest : List Json) :
    diffItems [] index (old :: olds) (item :: rest) =
      (diff [] old item).map (under (toString index)) ++ diffItems [] (index + 1) olds rest := by
  rw [diffItems, List.nil_append, diff_under]

theorem within_diffItems (index : Nat) (left right : List Json) :
    ∀ e ∈ diffItems [] index left right, e.Within := by
  induction right generalizing index left with
  | nil => simp [diffItems, Edit.Within]
  | cons item rest ih =>
    cases left with
    | nil => simpa [diffItems, Edit.Within] using ih (index + 1) []
    | cons old olds =>
      rw [diffItems_cons]
      intro e member
      rcases List.mem_append.mp member with here | later
      · obtain ⟨e', _, rfl⟩ := List.mem_map.mp here
        exact Edit.within_under _ e'
      · exact ih _ _ e later

theorem within_diff (left right : Json) : ∀ e ∈ diff [] left right, e.Within := by
  intro e member
  cases right with
  | obj members =>
    cases left with
    | obj old =>
      rw [diff_obj] at member
      rcases List.mem_append.mp member with changed | removed
      · obtain ⟨m, _, edit⟩ := List.mem_flatMap.mp changed
        unfold editsUnder at edit
        split at edit
        · obtain ⟨e', _, rfl⟩ := List.mem_map.mp edit
          exact Edit.within_under _ e'
        · cases List.mem_singleton.mp edit
          exact List.cons_ne_nil _ _
      · obtain ⟨m, _, edit⟩ := List.mem_filterMap.mp removed
        split at edit
        · contradiction
        · cases edit
          exact List.cons_ne_nil _ _
    | _ =>
      cases List.mem_singleton.mp member
      trivial
  | arr items =>
    cases left with
    | arr old => exact within_diffItems 0 old items e member
    | _ =>
      cases List.mem_singleton.mp member
      trivial
  | _ =>
    simp only [diff] at member
    split at member
    · contradiction
    · cases List.mem_singleton.mp member
      trivial

/-- Without difference from itself, which is so unless an object has two members of one name. -/
def Steady (j : Json) : Prop := diff [] j j = []

theorem steady_str (s : String) : Steady (.str s) := by simp [Steady, diff, sameScalar]

theorem steady_int (n : Int) : Steady (.int n) := by simp [Steady, diff, sameScalar]

theorem steady_bool (b : Bool) : Steady (.bool b) := by simp [Steady, diff, sameScalar]

theorem steady_arr {items : List Json} (steady : ∀ j ∈ items, j.Steady) : Steady (.arr items) := by
  suffices ∀ index, diffItems [] index items items = [] from this 0
  induction items with
  | nil => simp [diffItems]
  | cons item rest ih =>
    obtain ⟨first, others⟩ := List.forall_mem_cons.mp steady
    intro index
    rw [diffItems_cons, first, ih others]
    rfl

theorem editsUnder_steady {value : Json} (steady : value.Steady) (name : String) :
    editsUnder name (some value) value = [] := by
  rw [Steady] at steady
  simp [editsUnder, steady]

theorem removals_nil {left right : Members} (covered : ∀ m ∈ left, m.1 ∈ right.map (·.1)) :
    removals [] left right = [] := by
  rw [removals, List.filterMap_eq_nil_iff]
  intro m member
  have present : (findEntry m.1 right).isSome := by
    rw [Option.isSome_iff_ne_none, ne_eq, Members.findEntry_eq_none, Classical.not_not]
    exact covered m member
  rw [if_pos present]

end Json

namespace Members

variable {names names' : List String} {members members' : Members}

/-- Members under some of the names, in their order, and without difference from themselves. -/
structure Tidy (names : List String) (members : Members) : Prop where
  named : (members.map (·.1)).Sublist names
  steady : ∀ m ∈ members, m.2.Steady

theorem Tidy.distinct (h : members.Tidy names) (distinct : names.Nodup) :
    (members.map (·.1)).Nodup := distinct.sublist h.named

theorem tidy_nil : Tidy [] [] := ⟨.slnil, by simp⟩

theorem Tidy.cons {name : String} {value : Json} (steady : value.Steady) (h : members.Tidy names) :
    Tidy (name :: names) ((name, value) :: members) :=
  ⟨h.named.cons_cons name, List.forall_mem_cons.mpr ⟨steady, h.steady⟩⟩

theorem Tidy.append (h : members.Tidy names) (h' : members'.Tidy names') :
    Tidy (names ++ names') (members ++ members') := by
  constructor
  · rw [List.map_append]
    exact h.named.append h'.named
  · intro m member
    rcases List.mem_append.mp member with front | back
    · exact h.steady m front
    · exact h'.steady m back

theorem tidy_member {α : Type} {write : α → Json} (name : String) (value : Option α)
    (steady : ∀ a, value = some a → (write a).Steady) :
    Tidy [name] (Json.member name write value) := by
  cases value with
  | none => exact ⟨List.nil_sublist _, by simp [Json.member]⟩
  | some a => exact tidy_nil.cons (steady a rfl)

theorem Tidy.obj (h : members.Tidy names) (distinct : names.Nodup) :
    Json.Steady (.obj members) := by
  rw [Json.Steady, Json.diff_obj, Json.removals_nil fun m member => List.mem_map_of_mem member,
    List.append_nil, List.flatMap_eq_nil_iff]
  intro m member
  rw [findEntry_of_mem (h.distinct distinct) member]
  exact Json.editsUnder_steady (h.steady m member) m.1

/-- Where objects differ under one name only, that name alone is edited. -/
theorem Tidy.diff (h : members.Tidy names) (h' : members'.Tidy names) (distinct : names.Nodup)
    (name : String) {value : Json}
    (same : ∀ name', name' ≠ name → members'.find? name' = members.find? name')
    (found : members'.find? name = some value) :
    Json.diff [] (.obj members) (.obj members') =
      Json.editsUnder name (members.find? name) value := by
  have apart := h.distinct distinct
  have apart' := h'.distinct distinct
  have covered : ∀ m ∈ members, m.1 ∈ members'.map (·.1) := by
    intro m member
    rw [← find_ne_none]
    by_cases is : m.1 = name
    · rw [is, found]
      exact nofun
    · rw [same m.1 is, find_ne_none]
      exact List.mem_map_of_mem member
  have others : ∀ m ∈ members', m.1 ≠ name →
      Json.editsUnder m.1 (findEntry m.1 members) m.2 = [] := by
    intro m member is
    have here : findEntry m.1 members = some m.2 := by
      rw [← find_of_distinct apart, ← same m.1 is, find_of_distinct apart']
      exact findEntry_of_mem apart' member
    rw [here]
    exact Json.editsUnder_steady (h.steady (m.1, m.2) (mem_of_findEntry here)) m.1
  rw [find_of_distinct apart'] at found
  rw [Json.diff_obj, Json.removals_nil covered, List.append_nil, find_of_distinct apart,
    flatMap_of_only apart' others found]

end Members

namespace Json

theorem steady_ofStrings (texts : List String) : (ofStrings texts).Steady := by
  refine steady_arr fun j member => ?_
  obtain ⟨s, _, rfl⟩ := List.mem_map.mp member
  exact steady_str s

theorem steady_ofStringMap (m : SortedMap String) : (ofStringMap m).Steady := by
  have tidy : Members.Tidy m.keys (m.entries.map fun e => (e.1, .str e.2)) := by
    refine ⟨?_, fun e member => ?_⟩
    · rw [List.map_map]
      exact List.Sublist.refl _
    obtain ⟨_, _, rfl⟩ := List.mem_map.mp member
    exact steady_str _
  exact tidy.obj m.keys_distinct

end Json
end HostPorts
