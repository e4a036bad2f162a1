import HostPorts.Proofs.Json.Members

/-!
Merge patches after RFC 7396. A patch that is an object is merged member by member, and `null`
removes a member; any other patch takes the place of the whole value. What a patch does not name
stays, so a member goes only if the patch has `null` for it.
-/
namespace HostPorts

namespace Json

def isNull : Json → Bool
  | .null => true
  | _ => false

mutual

/-- The value after a patch. A target that is no object counts as an empty one if the patch is an
object. -/
def merge (target : Json) : Json → Json
  | .obj patch => .obj (mergeMembers (target.members?.getD []) patch)
  | patch => patch

def mergeMembers (members : Members) : List (String × Json) → Members
  | [] => members
  | (name, value) :: rest =>
    mergeMembers
      (if value.isNull then members.erase name
        else members.set name (((members.find? name).getD .null).merge value)) rest

end

example : merge (.obj [("a", .obj [("b", .str "c")]), ("d", .int 1)])
    (.obj [("a", .obj [("b", .str "d"), ("c", .null)]), ("d", .null)]) =
      .obj [("a", .obj [("b", .str "d")])] := rfl

example : merge (.arr [.int 1]) (.obj [("a", .str "b"), ("c", .null)]) =
    .obj [("a", .str "b")] := rfl

theorem merge_of_flat {target patch : Json} (flat : patch.members? = none) :
    target.merge patch = patch := by
  cases patch with
  | obj => contradiction
  | _ => rfl

variable {members patch : Members} {name : String}

theorem find_mergeMembers (distinct : (patch.map (·.1)).Nodup) :
    (mergeMembers members patch).find? name =
      match patch.find? name with
      | none => members.find? name
      | some value =>
        if value.isNull then none else some (((members.find? name).getD .null).merge value) := by
  rw [Members.find_of_distinct distinct]
  induction patch generalizing members with
  | nil => rfl
  | cons head rest ih =>
    obtain ⟨k, v⟩ := head
    obtain ⟨once, others⟩ := List.nodup_cons.mp distinct
    rw [mergeMembers, ih others, findEntry]
    by_cases same : k = name
    · rw [← same, if_pos rfl, Members.findEntry_eq_none.mpr once]
      cases null : v.isNull <;> simp [null]
    · rw [if_neg same]
      have beside : Members.find? (if v.isNull = true then members.erase k
          else members.set k (((members.find? k).getD .null).merge v)) name =
            members.find? name := by
        cases v.isNull <;> simp [Ne.symm same]
      rw [beside]

theorem names_mergeMembers (distinct : (members.map (·.1)).Nodup) :
    ((mergeMembers members patch).map (·.1)).Nodup := by
  induction patch generalizing members with
  | nil => exact distinct
  | cons head rest ih =>
    obtain ⟨k, v⟩ := head
    rw [mergeMembers]
    apply ih
    split
    · exact distinct.sublist (List.filter_sublist.map _)
    · exact Members.names_set distinct _

end Json

namespace Members

variable {α : Type} {members left right : Members} {name : String} {value : Json}

def Flat (members : Members) : Prop :=
  ∀ m ∈ members, m.2.members? = none ∧ m.2.isNull = false

theorem Flat.append (h : left.Flat) (h' : right.Flat) : (left ++ right).Flat := by
  intro m member
  rcases List.mem_append.mp member with front | back
  · exact h m front
  · exact h' m back

theorem flat_member {k : String} {write : α → Json} {value : Option α}
    (flat : ∀ a, (write a).members? = none ∧ (write a).isNull = false) :
    Flat (Json.member k write value) := by
  intro m member
  cases value with
  | none => contradiction
  | some a =>
    cases List.mem_singleton.mp member
    exact flat a

theorem Flat.find (h : members.Flat) (found : members.find? name = some value) :
    value.members? = none ∧ value.isNull = false := by
  induction members with
  | nil => contradiction
  | cons head rest ih =>
    obtain ⟨k, v⟩ := head
    rw [find_cons] at found
    cases later : find? rest name with
    | some v' =>
      rw [later] at found
      cases found
      exact ih (fun m member => h m (List.mem_cons_of_mem _ member)) later
    | none =>
      rw [later, Option.none_or] at found
      split at found
      · cases found
        exact h _ List.mem_cons_self
      · contradiction

theorem Flat.find_merge {patch : Members} (flat : patch.Flat)
    (distinct : (patch.map (·.1)).Nodup)
    (covers : members.find? name ≠ none → patch.find? name ≠ none) :
    (Json.mergeMembers members patch).find? name = patch.find? name := by
  rw [Json.find_mergeMembers distinct]
  cases found : patch.find? name with
  | none => exact Classical.byContradiction fun present => covers present found
  | some value =>
    obtain ⟨plain, solid⟩ := flat.find found
    simp [solid, Json.merge_of_flat plain]

end Members
end HostPorts
