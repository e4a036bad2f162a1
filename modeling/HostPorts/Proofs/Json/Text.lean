import HostPorts.Json.Reader
import HostPorts.Json.Writer

/-!
The text of a value, character by character. Texts are appended as bytes, and to take one apart
again costs far more than to make up the list of its characters.
-/
namespace HostPorts.Json

mutual

def chars : Json → List Char
  | .arr items => '[' :: [','].intercalate (charsOfItems items) ++ [']']
  | .obj members => '\x7b' :: [','].intercalate (charsOfMembers members) ++ ['\x7d']
  | j => j.render.toList

def charsOfItems : List Json → List (List Char)
  | [] => []
  | item :: rest => item.chars :: charsOfItems rest

def charsOfMembers : List (String × Json) → List (List Char)
  | [] => []
  | (name, value) :: rest => ((quote name).toList ++ ':' :: value.chars) :: charsOfMembers rest

end

mutual

theorem toList_render (j : Json) : j.render.toList = j.chars := by
  cases j with
  | arr items =>
    simp only [render, chars, String.toList_append, String.toList_intercalate,
      map_toList_renderItems items]
    rfl
  | obj members =>
    simp only [render, chars, String.toList_append, String.toList_intercalate,
      map_toList_renderMembers members]
    rfl
  | _ => rfl

theorem map_toList_renderItems (items : List Json) :
    (renderItems items).map String.toList = charsOfItems items := by
  cases items with
  | nil => rfl
  | cons item rest =>
    rw [renderItems, List.map_cons, toList_render item, map_toList_renderItems rest, charsOfItems]

theorem map_toList_renderMembers (members : List (String × Json)) :
    (renderMembers members).map String.toList = charsOfMembers members := by
  cases members with
  | nil => rfl
  | cons member rest =>
    obtain ⟨name, value⟩ := member
    rw [renderMembers, List.map_cons, String.toList_append, String.toList_append,
      toList_render value, map_toList_renderMembers rest, charsOfMembers, List.append_assoc]
    rfl

end

end HostPorts.Json
