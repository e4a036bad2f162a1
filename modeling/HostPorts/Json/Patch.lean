import HostPorts.Json.Basic

/-!
JSON patches: edits at paths, and the edits that lead from one value to another. Objects are
compared name by name, arrays index by index; only what was added, replaced or removed is edited.
-/
namespace HostPorts.Json

inductive Edit where
  | add (path : List String) (value : Json)
  | replace (path : List String) (value : Json)
  | remove (path : List String)

def sameScalar : Json → Json → Bool
  | .null, .null => true
  | .bool a, .bool b => a = b
  | .int a, .int b => a = b
  | .real m e, .real m' e' => m = m' && e = e'
  | .str a, .str b => a = b
  | _, _ => false

def removals (path : List String) (left right : Members) : List Edit :=
  left.filterMap fun m =>
    if (findEntry m.1 right).isSome then none else some (.remove (path ++ [m.1]))

mutual

def diff (path : List String) (left right : Json) : List Edit :=
  match right with
  | .obj members =>
    match left with
    | .obj old => diffMembers path old members ++ removals path old members
    | _ => [.replace path (.obj members)]
  | .arr items =>
    match left with
    | .arr old => diffItems path 0 old items
    | _ => [.replace path (.arr items)]
  | scalar => if sameScalar left scalar then [] else [.replace path scalar]

def diffMembers (path : List String) (left : Members) : List (String × Json) → List Edit
  | [] => []
  | (name, value) :: rest =>
    (match findEntry name left with
      | some old => diff (path ++ [name]) old value
      | none => [.add (path ++ [name]) value]) ++
    diffMembers path left rest

/-- From `index` on. Items beyond the end of the right array all go from the same place. -/
def diffItems (path : List String) (index : Nat) (left : List Json) : List Json → List Edit
  | [] => left.map fun _ => .remove (path ++ [toString index])
  | item :: rest =>
    match left with
    | [] => .add (path ++ [toString index]) item :: diffItems path (index + 1) [] rest
    | old :: olds =>
      diff (path ++ [toString index]) old item ++ diffItems path (index + 1) olds rest

end

def escapePointer : Char → List Char
  | '~' => ['~', '0']
  | '/' => ['~', '1']
  | c => [c]

def pointer (path : List String) : String :=
  String.ofList (path.flatMap fun step => '/' :: step.toList.flatMap escapePointer)

def Edit.write : Edit → Json
  | .add path value => .obj [("op", .str "add"), ("path", .str (pointer path)), ("value", value)]
  | .replace path value =>
    .obj [("op", .str "replace"), ("path", .str (pointer path)), ("value", value)]
  | .remove path => .obj [("op", .str "remove"), ("path", .str (pointer path))]

end HostPorts.Json
