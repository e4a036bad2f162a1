import HostPorts.SortedMap

/-!
JSON values and the ways in which typed data are read from them. An object keeps its members in
the order of the text, repeated names included; what a repeated name means is up to the reader.
-/
namespace HostPorts

/-- A number is `int` when it is written without fraction and exponent and fits in 64 bits, and
`real mantissa exponent`, that is mantissa · 10 ^ exponent, otherwise. -/
inductive Json where
  | null
  | bool (value : Bool)
  | int (value : Int)
  | real (mantissa exponent : Int)
  | str (value : String)
  | arr (items : List Json)
  | obj (members : List (String × Json))
  deriving Inhabited

abbrev Members := List (String × Json)

/-- The last member of that name. -/
def Members.find? (members : Members) (name : String) : Option Json :=
  findEntry name members.reverse

namespace Json

def str? : Json → Option String
  | .str s => some s
  | _ => none

def bool? : Json → Option Bool
  | .bool b => some b
  | _ => none

def int? : Json → Option Int
  | .int n => some n
  | _ => none

def natBelow? (bound : Nat) : Json → Option Nat
  | .int (.ofNat n) => if n < bound then some n else none
  | _ => none

def uint16? (j : Json) : Option UInt16 := (j.natBelow? 65536).map UInt16.ofNat

def int32? : Json → Option Int
  | .int n => if -2147483648 ≤ n ∧ n < 2147483648 then some n else none
  | _ => none

def int64? : Json → Option Int64
  | .int n =>
    if -9223372036854775808 ≤ n ∧ n < 9223372036854775808 then some (Int64.ofInt n) else none
  | _ => none

def list? {α : Type} (item : Json → Option α) : Json → Option (List α)
  | .arr items => items.mapM item
  | _ => none

def map? {α : Type} (item : Json → Option α) : Json → Option (SortedMap α)
  | .obj members => (members.mapM fun m => (item m.2).map (m.1, ·)).map SortedMap.ofList
  | _ => none

def nullable? {α : Type} (item : Json → Option α) : Json → Option (Option α)
  | .null => some none
  | j => (item j).map some

/-- One word of a fixed vocabulary. An object with that word as its only name and `null` under it
is another way to write the word. -/
def word? : Json → Option String
  | .str s => some s
  | .obj [(s, .null)] => some s
  | _ => none

def members? : Json → Option Members
  | .obj members => some members
  | _ => none

/-- The members of a record with the given field names. Unknown names are passed over, a field
given twice is refused, and an array gives the fields in their order, `least` of them or more. -/
def record? (names : List String) (least : Nat) : Json → Option Members
  | .obj members =>
    let known := members.filter fun m => names.contains m.1
    if (known.map (·.1)).Nodup then some known else none
  | .arr items =>
    if least ≤ items.length ∧ items.length ≤ names.length then some (names.zip items) else none
  | _ => none

end Json

namespace Members

def required {α : Type} (members : Members) (name : String) (item : Json → Option α) : Option α :=
  (members.find? name).bind item

/-- A field that may be absent or `null`. -/
def optional {α : Type} (members : Members) (name : String) (item : Json → Option α) :
    Option (Option α) :=
  match members.find? name with
  | none => some none
  | some j => j.nullable? item

/-- A field that may be absent, but not `null`. -/
def defaulted {α : Type} (members : Members) (name : String) (value : α)
    (item : Json → Option α) : Option α :=
  match members.find? name with
  | none => some value
  | some j => item j

end Members

def Json.member {α : Type} (name : String) (write : α → Json) : Option α → Members
  | none => []
  | some value => [(name, write value)]

def Json.ofStrings (items : List String) : Json := .arr (items.map .str)

def Json.ofStringMap (m : SortedMap String) : Json := .obj (m.entries.map fun e => (e.1, .str e.2))

def Json.ofUInt16 (n : UInt16) : Json := .int (Int.ofNat n.toNat)

def Json.ofInt64 (n : Int64) : Json := .int n.toInt

end HostPorts
