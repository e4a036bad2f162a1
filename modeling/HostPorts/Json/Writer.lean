import HostPorts.Json.Basic

/-!
JSON values as text, without blanks. Only `"`, `\` and control characters are escaped.
-/
namespace HostPorts.Json

def hexDigit (n : Nat) : Char := (Nat.digitChar (n % 16))

def escapeChar : Char → List Char
  | '"' => ['\\', '"']
  | '\\' => ['\\', '\\']
  | '\n' => ['\\', 'n']
  | '\r' => ['\\', 'r']
  | '\t' => ['\\', 't']
  | '\x08' => ['\\', 'b']
  | '\x0c' => ['\\', 'f']
  | c =>
    if c.toNat < 0x20 then ['\\', 'u', '0', '0', hexDigit (c.toNat / 16), hexDigit c.toNat]
    else [c]

def quote (s : String) : String := String.ofList ('"' :: s.toList.flatMap escapeChar ++ ['"'])

def renderReal (mantissa exponent : Int) : String :=
  let sign := if mantissa < 0 then "-" else ""
  let n := mantissa.natAbs
  if 0 ≤ exponent then sign ++ toString (n * Nat.pow 10 exponent.toNat) ++ ".0"
  else
    let places := (-exponent).toNat
    let fraction := (Nat.toDigits 10 (n % Nat.pow 10 places))
    sign ++ toString (n / Nat.pow 10 places) ++ "." ++
      String.ofList (List.replicate (places - fraction.length) '0' ++ fraction)

mutual

def render : Json → String
  | .null => "null"
  | .bool b => if b then "true" else "false"
  | .int n => toString n
  | .real m e => renderReal m e
  | .str s => quote s
  | .arr items => "[" ++ String.intercalate "," (renderItems items) ++ "]"
  | .obj members => "\x7b" ++ String.intercalate "," (renderMembers members) ++ "\x7d"

def renderItems : List Json → List String
  | [] => []
  | item :: rest => item.render :: renderItems rest

def renderMembers : List (String × Json) → List String
  | [] => []
  | (name, value) :: rest => (quote name ++ ":" ++ value.render) :: renderMembers rest

end

end HostPorts.Json
