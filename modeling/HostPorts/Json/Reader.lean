import HostPorts.Json.Basic

/-!
From text to JSON values. The reader takes the text one character at a time and keeps the open
arrays and objects on a stack, so it recurses on the text alone. It refuses numbers beyond the
double range, lone surrogates, raw control characters and nesting deeper than 127.
-/
namespace HostPorts.Json

inductive Frame where
  | array (items : List Json)
  | object (members : Members)
  | member (members : Members) (name : String)

/-- What the reader is in the middle of. Characters of a text or word are kept newest first. -/
inductive Mode where
  | value
  | valueOrClose
  | nameOrClose
  | name
  | colon (name : String)
  | separator
  | text (isName : Bool) (chars : List Char)
  | escape (isName : Bool) (chars : List Char)
  | hex (isName : Bool) (chars : List Char) (high : Option Nat) (digits unit : Nat)
  | lowEscape (isName : Bool) (chars : List Char) (high : Nat) (slash : Bool)
  | word (chars : List Char)
  | done (value : Json)

structure Reader where
  stack : List Frame
  mode : Mode

def isBlank (c : Char) : Bool := c = ' ' || c = '\n' || c = '\t' || c = '\r'

def isWordChar (c : Char) : Bool := c.isAlphanum || c = '+' || c = '-' || c = '.'

def digitValue (c : Char) : Nat := c.toNat - '0'.toNat

def readDigits (digits : List Char) : Nat := digits.foldl (fun n c => 10 * n + digitValue c) 0

/-- The least whole number that rounds to no finite double: 2 ^ 1024 - 2 ^ 970. -/
def realLimit : Nat := Nat.pow 2 1024 - Nat.pow 2 970

/-- Whether mantissa · 10 ^ exponent rounds to a finite double. A number below 1 needs no
calculation. -/
def isFinite (mantissa : Nat) (exponent : Int) : Bool :=
  if mantissa = 0 then true
  else if exponent < 0 then
    (Nat.toDigits 10 mantissa).length ≤ (-exponent).toNat ||
      mantissa < realLimit * Nat.pow 10 (-exponent).toNat
  else if 400 < exponent then false
  else mantissa * Nat.pow 10 exponent.toNat < realLimit

def realOf (negative : Bool) (mantissa : Nat) (exponent : Int) : Option Json :=
  if isFinite mantissa exponent then
    some (.real (if negative then -(mantissa : Int) else mantissa) exponent)
  else none

def readExponent : List Char → Option (Option Int)
  | [] => some none
  | e :: rest =>
    if e = 'e' || e = 'E' then
      let (negative, digits) := match rest with
        | '-' :: ds => (true, ds)
        | '+' :: ds => (false, ds)
        | ds => (false, ds)
      if digits.isEmpty || !digits.all Char.isDigit then none
      else
        let n : Int := readDigits digits
        some (some (if negative then -n else n))
    else none

def readNumber (chars : List Char) : Option Json :=
  let (negative, unsigned) := match chars with
    | '-' :: rest => (true, rest)
    | rest => (false, rest)
  let whole := unsigned.takeWhile Char.isDigit
  let rest := unsigned.dropWhile Char.isDigit
  if whole.isEmpty || (whole.length > 1 && whole.head? = some '0') then none
  else
    let (fraction, rest) : Option (List Char) × List Char := match rest with
      | '.' :: rest => (some (rest.takeWhile Char.isDigit), rest.dropWhile Char.isDigit)
      | rest => (none, rest)
    if fraction = some [] then none
    else match readExponent rest with
      | none => none
      | some exponent =>
        let n := readDigits whole
        match fraction, exponent with
        | none, none =>
          if negative then
            if 0 < n ∧ n ≤ 9223372036854775808 then some (.int (-(n : Int))) else realOf true n 0
          else if n < 18446744073709551616 then some (.int n)
          else realOf false n 0
        | _, _ =>
          let places := fraction.getD []
          realOf negative (readDigits (whole ++ places))
            (exponent.getD 0 - places.length)

def readWord (chars : List Char) : Option Json :=
  match String.ofList chars with
  | "null" => some .null
  | "true" => some (.bool true)
  | "false" => some (.bool false)
  | _ => readNumber chars

def hexValue (c : Char) : Option Nat :=
  if c.isDigit then some (digitValue c)
  else if 'a' ≤ c ∧ c ≤ 'f' then some (c.toNat - 'a'.toNat + 10)
  else if 'A' ≤ c ∧ c ≤ 'F' then some (c.toNat - 'A'.toNat + 10)
  else none

def namedEscape : Char → Option Char
  | '"' => some '"'
  | '\\' => some '\\'
  | '/' => some '/'
  | 'b' => some '\x08'
  | 'f' => some '\x0c'
  | 'n' => some '\n'
  | 'r' => some '\r'
  | 't' => some '\t'
  | _ => none

namespace Reader

def start : Reader := ⟨[], .value⟩

def deliver (stack : List Frame) (value : Json) : Option Reader :=
  match stack with
  | [] => some ⟨[], .done value⟩
  | .array items :: rest => some ⟨.array (value :: items) :: rest, .separator⟩
  | .member members name :: rest => some ⟨.object ((name, value) :: members) :: rest, .separator⟩
  | .object _ :: _ => none

def open? (stack : List Frame) (frame : Frame) (mode : Mode) : Option Reader :=
  if stack.length < 127 then some ⟨frame :: stack, mode⟩ else none

def beginValue (stack : List Frame) (c : Char) : Option Reader :=
  if isBlank c then some ⟨stack, .value⟩
  else match c with
    | '"' => some ⟨stack, .text false []⟩
    | '[' => open? stack (.array []) .valueOrClose
    | '{' => open? stack (.object []) .nameOrClose
    | c => if isWordChar c then some ⟨stack, .word [c]⟩ else none

def closeArray : List Frame → Option Reader
  | .array items :: rest => deliver rest (.arr items.reverse)
  | _ => none

def closeObject : List Frame → Option Reader
  | .object members :: rest => deliver rest (.obj members.reverse)
  | _ => none

def closeText (stack : List Frame) (isName : Bool) (chars : List Char) : Option Reader :=
  let s := String.ofList chars.reverse
  if isName then some ⟨stack, .colon s⟩ else deliver stack (.str s)

/-- Takes in a finished `\u` unit: a surrogate pair makes one character, half a pair none. -/
def closeUnit (stack : List Frame) (isName : Bool) (chars : List Char) (high : Option Nat)
    (unit : Nat) : Option Reader :=
  match high with
  | some h =>
    if 0xDC00 ≤ unit ∧ unit ≤ 0xDFFF then
      let c := Char.ofNat (0x10000 + (h - 0xD800) * 0x400 + (unit - 0xDC00))
      some ⟨stack, .text isName (c :: chars)⟩
    else none
  | none =>
    if 0xD800 ≤ unit ∧ unit ≤ 0xDBFF then some ⟨stack, .lowEscape isName chars unit false⟩
    else if 0xDC00 ≤ unit ∧ unit ≤ 0xDFFF then none
    else some ⟨stack, .text isName (Char.ofNat unit :: chars)⟩

def settle (r : Reader) (c : Char) : Option Reader :=
  match r.mode with
  | .word chars => if isWordChar c then some r else (readWord chars.reverse).bind (deliver r.stack)
  | _ => some r

def step (r : Reader) (c : Char) : Option Reader :=
  match r.mode with
  | .value => beginValue r.stack c
  | .valueOrClose =>
    if isBlank c then some r
    else if c = ']' then closeArray r.stack
    else beginValue r.stack c
  | .nameOrClose =>
    if isBlank c then some r
    else if c = '}' then closeObject r.stack
    else if c = '"' then some ⟨r.stack, .text true []⟩
    else none
  | .name =>
    if isBlank c then some r
    else if c = '"' then some ⟨r.stack, .text true []⟩
    else none
  | .colon name =>
    if isBlank c then some r
    else if c = ':' then
      match r.stack with
      | .object members :: rest => some ⟨.member members name :: rest, .value⟩
      | _ => none
    else none
  | .separator =>
    if isBlank c then some r
    else match c, r.stack with
      | ',', .array _ :: _ => some ⟨r.stack, .value⟩
      | ',', .object _ :: _ => some ⟨r.stack, .name⟩
      | ']', _ => closeArray r.stack
      | '}', _ => closeObject r.stack
      | _, _ => none
  | .text isName chars =>
    if c = '"' then closeText r.stack isName chars
    else if c = '\\' then some ⟨r.stack, .escape isName chars⟩
    else if c.toNat < 0x20 then none
    else some ⟨r.stack, .text isName (c :: chars)⟩
  | .escape isName chars =>
    if c = 'u' then some ⟨r.stack, .hex isName chars none 0 0⟩
    else (namedEscape c).map fun e => ⟨r.stack, .text isName (e :: chars)⟩
  | .hex isName chars high digits unit =>
    (hexValue c).bind fun d =>
      if digits = 3 then closeUnit r.stack isName chars high (16 * unit + d)
      else some ⟨r.stack, .hex isName chars high (digits + 1) (16 * unit + d)⟩
  | .lowEscape isName chars high slash =>
    if slash then
      if c = 'u' then some ⟨r.stack, .hex isName chars (some high) 0 0⟩ else none
    else if c = '\\' then some ⟨r.stack, .lowEscape isName chars high true⟩ else none
  | .word chars => some ⟨r.stack, .word (c :: chars)⟩
  | .done _ => none

def run (r : Reader) : List Char → Option (Json × List Char)
  | [] =>
    match r.mode, r.stack with
    | .done value, _ => some (value, [])
    | .word chars, [] => (readWord chars.reverse).map (·, [])
    | _, _ => none
  | c :: rest =>
    match r.settle c with
    | none => none
    | some r' =>
      match r'.mode with
      | .done value => some (value, c :: rest)
      | _ => (r'.step c).bind fun r'' => r''.run rest

end Reader

def readFirst? (text : List Char) : Option (Json × List Char) := Reader.start.run text

def read? (text : String) : Option Json :=
  match readFirst? text.toList with
  | some (value, rest) => if rest.all isBlank then some value else none
  | none => none

end HostPorts.Json
