/-!
Socket addresses as text. IPv4 is four decimal octets without leading zeros; IPv6 stands in
brackets, may shorten one run of zero groups to `::`, may end in an IPv4 address and may carry a
numeric scope. Printing shortens the first of the longest runs of two or more zero groups.
-/
namespace HostPorts

inductive SocketAddress where
  | v4 (octets : List Nat) (port : Nat)
  | v6 (groups : List Nat) (scope : Nat) (port : Nat)
  deriving DecidableEq

namespace SocketAddress

def any (port : Nat) : SocketAddress := .v4 [0, 0, 0, 0] port

def digitIn (radix : Nat) (c : Char) : Option Nat :=
  let value :=
    if c.isDigit then some (c.toNat - '0'.toNat)
    else if 'a' ≤ c ∧ c ≤ 'z' then some (c.toNat - 'a'.toNat + 10)
    else if 'A' ≤ c ∧ c ≤ 'Z' then some (c.toNat - 'A'.toNat + 10)
    else none
  value.filter (· < radix)

def isDigitIn (radix : Nat) (c : Char) : Bool := (digitIn radix c).isSome

def takeNumber (radix limit : Nat) (chars : List Char) : Option (Nat × List Char) :=
  let digits := chars.takeWhile (isDigitIn radix)
  let value := digits.foldl (fun n c => radix * n + (digitIn radix c).getD 0) 0
  if digits.isEmpty || limit < value then none else some (value, chars.drop digits.length)

def takeShort (radix width : Nat) (chars : List Char) : Option (Nat × List Char) :=
  let digits := chars.takeWhile (isDigitIn radix)
  if width < digits.length then none else takeNumber radix (Nat.pow radix width - 1) chars

def takeOctet (chars : List Char) : Option (Nat × List Char) :=
  match chars with
  | '0' :: c :: _ => if c.isDigit then none else takeNumber 10 255 chars
  | _ => if 3 < (chars.takeWhile Char.isDigit).length then none else takeNumber 10 255 chars

def takeChar (c : Char) : List Char → Option (List Char)
  | d :: rest => if d = c then some rest else none
  | [] => none

def takeV4 (chars : List Char) : Option (List Nat × List Char) := do
  let (a, rest) ← takeOctet chars
  let (b, rest) ← takeOctet (← takeChar '.' rest)
  let (c, rest) ← takeOctet (← takeChar '.' rest)
  let (d, rest) ← takeOctet (← takeChar '.' rest)
  return ([a, b, c, d], rest)

def groupsOfV4 : List Nat → List Nat
  | [a, b, c, d] => [256 * a + b, 256 * c + d]
  | _ => []

/-- Up to `room` groups separated by colons, the rest of the text, and whether they end in an IPv4
address. The first group has no colon before it. -/
def takeGroups (room : Nat) (first : Bool) (chars : List Char) : List Nat × List Char × Bool :=
  match room with
  | 0 => ([], chars, false)
  | more + 1 =>
    let body := if first then some chars else takeChar ':' chars
    match body with
    | none => ([], chars, false)
    | some body =>
      match if 1 ≤ more then takeV4 body else none with
      | some (octets, rest) => (groupsOfV4 octets, rest, true)
      | none =>
        match takeShort 16 4 body with
        | none => ([], chars, false)
        | some (group, rest) =>
          let (groups, rest, endsInV4) := takeGroups more false rest
          (group :: groups, rest, endsInV4)

def takeV6 (chars : List Char) : Option (List Nat × List Char) :=
  let (head, rest, endsInV4) := takeGroups 8 true chars
  if head.length = 8 then some (head, rest)
  else if endsInV4 then none
  else do
    let rest ← takeChar ':' (← takeChar ':' rest)
    let (tail, rest, _) := takeGroups (7 - head.length) true rest
    return (head ++ List.replicate (8 - head.length - tail.length) 0 ++ tail, rest)

def takePort (chars : List Char) : Option (Nat × List Char) := do
  takeNumber 10 65535 (← takeChar ':' chars)

def takeScope (chars : List Char) : Option (Nat × List Char) :=
  match chars with
  | '%' :: rest => takeNumber 10 4294967295 rest
  | _ => some (0, chars)

def readV4 (chars : List Char) : Option SocketAddress := do
  let (octets, rest) ← takeV4 chars
  let (port, rest) ← takePort rest
  if rest.isEmpty then some (.v4 octets port) else none

def readV6 (chars : List Char) : Option SocketAddress := do
  let (groups, rest) ← takeV6 (← takeChar '[' chars)
  let (scope, rest) ← takeScope rest
  let (port, rest) ← takePort (← takeChar ']' rest)
  if rest.isEmpty then some (.v6 groups scope port) else none

def read? (chars : List Char) : Option SocketAddress := readV4 chars <|> readV6 chars

def hex (n : Nat) : String := String.ofList (Nat.toDigits 16 n)

def renderV4 (octets : List Nat) : String := String.intercalate "." (octets.map toString)

def zeroRun (groups : List Nat) : Nat := (groups.takeWhile (· = 0)).length

/-- Start and length of the first longest run of zero groups, looking from index `index` on. -/
def longestRun (index : Nat) (best : Nat × Nat) : List Nat → Nat × Nat
  | [] => best
  | group :: rest =>
    let run := zeroRun (group :: rest)
    longestRun (index + 1) (if best.2 < run then (index, run) else best) rest

def renderGroups (groups : List Nat) : String := String.intercalate ":" (groups.map hex)

def renderV6 (groups : List Nat) : String :=
  match groups with
  | [0, 0, 0, 0, 0, 0xFFFF, a, b] =>
    "::ffff:" ++ renderV4 [a / 256, a % 256, b / 256, b % 256]
  | _ =>
    let (start, length) := longestRun 0 (0, 0) groups
    if 1 < length then
      renderGroups (groups.take start) ++ "::" ++ renderGroups (groups.drop (start + length))
    else renderGroups groups

def render : SocketAddress → String
  | .v4 octets port => renderV4 octets ++ ":" ++ toString port
  | .v6 groups scope port =>
    let zone := if scope = 0 then "" else "%" ++ toString scope
    "[" ++ renderV6 groups ++ zone ++ "]:" ++ toString port

end SocketAddress
end HostPorts
