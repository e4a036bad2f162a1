import HostPorts.Json.Patch
import HostPorts.Proofs.Json.Members

/-!
JSON patches after RFC 6902, from the side of whoever applies them: pointers are read back, steps
name members of objects and indices of arrays, and each edit acts on the outcome of the one before
it or fails. Of the operations of the standard, those that a difference is made of are covered.
-/
namespace HostPorts.Json

def readSteps? : List Char → Option (List Char × List String)
  | [] => some ([], [])
  | '/' :: rest => (readSteps? rest).map fun (text, steps) => ([], String.ofList text :: steps)
  | '~' :: '0' :: rest => (readSteps? rest).map fun (text, steps) => ('~' :: text, steps)
  | '~' :: '1' :: rest => (readSteps? rest).map fun (text, steps) => ('/' :: text, steps)
  | '~' :: _ => none
  | c :: rest => (readSteps? rest).map fun (text, steps) => (c :: text, steps)

def readPointer? (pointer : String) : Option (List String) :=
  match readSteps? pointer.toList with
  | some ([], steps) => some steps
  | _ => none

example : readPointer? "/metadata/a~1b~01" = some ["metadata", "a/b~1"] := by decide

theorem readSteps_cons {c : Char} (slash : c ≠ '/') (tilde : c ≠ '~') (rest : List Char) :
    readSteps? (c :: rest) = (readSteps? rest).map fun (text, steps) => (c :: text, steps) := by
  rw [readSteps?]
  · exact slash
  · exact fun _ is _ => tilde is
  · exact fun _ is _ => tilde is
  · exact tilde

theorem readSteps_escaped (step rest : List Char) :
    readSteps? (step.flatMap escapePointer ++ rest) =
      (readSteps? rest).map fun (text, steps) => (step ++ text, steps) := by
  induction step with
  | nil => simp
  | cons c step ih =>
    rw [List.flatMap_cons, List.append_assoc]
    by_cases tilde : c = '~'
    · subst tilde
      simp only [escapePointer, List.cons_append, List.nil_append, readSteps?, ih, Option.map_map]
      rfl
    · by_cases slash : c = '/'
      · subst slash
        simp only [escapePointer, List.cons_append, List.nil_append, readSteps?, ih,
          Option.map_map]
        rfl
      · simp only [escapePointer, List.cons_append, List.nil_append, readSteps_cons slash tilde,
          ih, Option.map_map]
        rfl

theorem readPointer_pointer (path : List String) : readPointer? (pointer path) = some path := by
  suffices readSteps? (path.flatMap fun step => '/' :: step.toList.flatMap escapePointer) =
      some ([], path) by
    rw [readPointer?, pointer, String.toList_ofList, this]
  induction path with
  | nil => rfl
  | cons step path ih =>
    rw [List.flatMap_cons, List.cons_append, readSteps?, readSteps_escaped, ih]
    simp

namespace Edit

def read? (j : Json) : Option Edit := do
  let m ← j.members?
  let path ← m.required "path" fun j => j.str?.bind readPointer?
  match ← m.required "op" str? with
  | "add" => return .add path (← m.find? "value")
  | "replace" => return .replace path (← m.find? "value")
  | "remove" => return .remove path
  | _ => none

theorem read_write (e : Edit) : read? e.write = some e := by
  cases e <;> simp [read?, write, members?, Members.required, str?, readPointer_pointer]

end Edit

/-- The index below a bound that a step of a path spells; there are no leading zeros. -/
def indexBelow? (bound : Nat) (step : String) : Option Nat :=
  (List.range bound).find? fun i => toString i = step

def descend (step : String) (change : Json → Option Json) : Json → Option Json
  | .obj members => do
    let old ← Members.find? members step
    return .obj (Members.set members step (← change old))
  | .arr items => do
    let i ← indexBelow? items.length step
    return .arr (items.set i (← change (← items[i]?)))
  | _ => none

/-- Follows a path to its last step, at which the value there is changed. -/
def changeAt (change : String → Json → Option Json) (step : String) :
    List String → Json → Option Json
  | [], j => change step j
  | next :: rest, j => j.descend step (changeAt change next rest)

/-- Puts a value under a name, or in front of an index; `-` is the end of an array. -/
def putAt (value : Json) (step : String) : Json → Option Json
  | .obj members => some (.obj (Members.set members step value))
  | .arr items =>
    if step = "-" then some (.arr (items ++ [value]))
    else (indexBelow? (items.length + 1) step).map fun i => .arr (items.insertIdx i value)
  | _ => none

def dropAt (step : String) : Json → Option Json
  | .obj members =>
    if (Members.find? members step).isSome then some (.obj (Members.erase members step)) else none
  | .arr items => (indexBelow? items.length step).map fun i => .arr (items.eraseIdx i)
  | _ => none

namespace Edit

def apply : Edit → Json → Option Json
  | .add [] value, _ => some value
  | .add (step :: rest) value, j => changeAt (putAt value) step rest j
  | .replace [] value, _ => some value
  | .replace (step :: rest) value, j =>
    changeAt (fun last => descend last fun _ => some value) step rest j
  | .remove [], _ => none
  | .remove (step :: rest), j => changeAt dropAt step rest j

def applyAll (edits : List Edit) (j : Json) : Option Json := edits.foldlM (fun j e => e.apply j) j

example : applyAll [.add ["a", "1"] (.int 2), .replace ["b"] .null, .remove ["c"]]
    (.obj [("a", .arr [.int 1, .int 3]), ("b", .int 4), ("c", .int 5)]) =
      some (.obj [("a", .arr [.int 1, .int 2, .int 3]), ("b", .null)]) := by rfl

@[simp] theorem applyAll_nil (j : Json) : applyAll [] j = some j := rfl

@[simp] theorem applyAll_cons (e : Edit) (rest : List Edit) (j : Json) :
    applyAll (e :: rest) j = (e.apply j).bind (applyAll rest) := rfl

theorem applyAll_append (front back : List Edit) (j : Json) :
    applyAll (front ++ back) j = (applyAll front j).bind (applyAll back) :=
  List.foldlM_append

def under (step : String) : Edit → Edit
  | .add path value => .add (step :: path) value
  | .replace path value => .replace (step :: path) value
  | .remove path => .remove (step :: path)

def Within : Edit → Prop
  | .add path _ => path ≠ []
  | .replace _ _ => True
  | .remove path => path ≠ []

@[simp] theorem within_under (step : String) (e : Edit) : (e.under step).Within := by
  cases e <;> simp [under, Within]

theorem apply_under {e : Edit} (within : e.Within) (step : String) (j : Json) :
    (e.under step).apply j = j.descend step e.apply := by
  cases e with
  | add path value =>
    cases path with
    | nil => contradiction
    | cons => rfl
  | replace path value => cases path <;> rfl
  | remove path =>
    cases path with
    | nil => contradiction
    | cons => rfl

end Edit

variable {members : Members} {items : List Json} {step : String} {value : Json}

theorem descend_member (found : members.find? step = some value) (change : Json → Option Json) :
    (obj members).descend step change =
      (change value).map fun new => .obj (members.set step new) := by
  rw [descend, found]
  change (change value).bind _ = _
  cases change value <;> rfl

theorem indexBelow_toString {bound i : Nat} (below : i < bound) :
    indexBelow? bound (toString i) = some i := by
  refine List.find?_range_eq_some.mpr ⟨by simp, List.mem_range.mpr below, ?_⟩
  intro j before
  have differ : toString j ≠ toString i := by
    intro same
    simp only [Nat.toString_eq_ofList_toDigits, String.ofList_inj] at same
    have values := congrArg (fun digits => Nat.ofDigitChars 10 digits 0) same
    simp only [Nat.ofDigitChars_ten_toDigits] at values
    omega
  simpa using differ

theorem indexBelow_eq_none {c : Char} (has : c ∈ step.toList) (other : c.isDigit = false)
    (bound : Nat) : indexBelow? bound step = none := by
  refine List.find?_range_eq_none.mpr fun i _ => ?_
  have differ : toString i ≠ step := by
    rintro rfl
    rw [Nat.toString_eq_ofList_toDigits, String.toList_ofList] at has
    rw [Nat.isDigit_of_mem_toDigits (by decide) (by decide) has] at other
    contradiction
  simpa using differ

theorem descend_item {i : Nat} (found : items[i]? = some value) (change : Json → Option Json) :
    (arr items).descend (toString i) change =
      (change value).map fun new => .arr (items.set i new) := by
  obtain ⟨below, _⟩ := List.getElem?_eq_some_iff.mp found
  rw [descend, indexBelow_toString below, Option.bind_eq_bind, Option.bind_some, found]
  change (change value).bind _ = _
  cases change value <;> rfl

namespace Edit

variable {edits : List Edit}

theorem applyAll_under_member (within : ∀ e ∈ edits, e.Within)
    (found : members.find? step = some value) :
    applyAll (edits.map (under step)) (.obj members) = (applyAll edits value).map fun new =>
      .obj (if edits = [] then members else members.set step new) := by
  induction edits generalizing members value with
  | nil => rfl
  | cons e rest ih =>
    obtain ⟨first, others⟩ := List.forall_mem_cons.mp within
    rw [List.map_cons, applyAll_cons, apply_under first, descend_member found, applyAll_cons]
    cases e.apply value with
    | none => rfl
    | some mid =>
      have there : (members.set step mid).find? step = some mid := by simp
      rw [Option.map_some, Option.bind_some, ih others there, Option.bind_some]
      cases rest with
      | nil => rfl
      | cons => simp [Members.set_set]

theorem applyAll_under_item {i : Nat} (within : ∀ e ∈ edits, e.Within)
    (found : items[i]? = some value) :
    applyAll (edits.map (under (toString i))) (.arr items) =
      (applyAll edits value).map fun new => .arr (items.set i new) := by
  induction edits generalizing items value with
  | nil =>
    obtain ⟨below, rfl⟩ := List.getElem?_eq_some_iff.mp found
    simp
  | cons e rest ih =>
    obtain ⟨first, others⟩ := List.forall_mem_cons.mp within
    obtain ⟨below, _⟩ := List.getElem?_eq_some_iff.mp found
    rw [List.map_cons, applyAll_cons, apply_under first, descend_item found, applyAll_cons]
    cases e.apply value with
    | none => rfl
    | some mid =>
      have there : (items.set i mid)[i]? = some mid := List.getElem?_set_self below
      rw [Option.map_some, Option.bind_some, ih others there, Option.bind_some]
      simp

end Edit
end HostPorts.Json
