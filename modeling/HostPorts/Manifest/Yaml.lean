import HostPorts.Json.Writer

/-!
JSON values as YAML in block style. A list within an object is not indented.
-/
namespace HostPorts.Yaml

def reservedWords : List String :=
  ["", "~", "null", "true", "false", "y", "yes", "on", "n", "no", "off", ".inf", ".nan"]

def leadingMarks : List Char :=
  ['-', '+', '?', ':', ',', '[', ']', '\x7b', '\x7d', '#', '&', '*', '!', '|', '>', '\'', '"', '%',
    '@', '\x60', ' ']

/-- Whether a colon or a hash within the text would end it. -/
def breaksOff : List Char → Bool
  | [] => false
  | [c] => c = ':' || c = ' '
  | a :: b :: rest => (a = ':' && b = ' ') || (a = ' ' && b = '#') || breaksOff (b :: rest)

def isPlain (s : String) : Bool :=
  !reservedWords.contains (s.map Char.toLower) &&
    (match s.toList with
    | [] => false
    | c :: _ => !leadingMarks.contains c && !c.isDigit) &&
    !breaksOff s.toList

def text (s : String) : String :=
  if isPlain s then s
  else
    "'" ++ String.ofList (s.toList.flatMap fun c => if c = '\'' then [c, c] else [c]) ++ "'"

def hang : List String → List String
  | [] => []
  | first :: rest => ("- " ++ first) :: rest.map ("  " ++ ·)

def named (name : String) (value : Json) (lines : List String) : List String :=
  match value with
  | .obj (_ :: _) => (text name ++ ":") :: lines.map ("  " ++ ·)
  | .arr (_ :: _) => (text name ++ ":") :: lines
  | _ => [text name ++ ": " ++ String.join lines]

mutual

def lines : Json → List String
  | .obj [] => ["\x7b\x7d"]
  | .obj members => memberLines members
  | .arr [] => ["[]"]
  | .arr items => itemLines items
  | .str s => [text s]
  | .null => [Json.null.render]
  | .bool b => [(Json.bool b).render]
  | .int n => [(Json.int n).render]
  | .real m e => [(Json.real m e).render]

def itemLines : List Json → List String
  | [] => []
  | item :: rest => hang (lines item) ++ itemLines rest

def memberLines : List (String × Json) → List String
  | [] => []
  | (name, value) :: rest => named name value (lines value) ++ memberLines rest

end

def document (j : Json) : String := String.join (("---" :: lines j).map (· ++ "\n"))

end HostPorts.Yaml
