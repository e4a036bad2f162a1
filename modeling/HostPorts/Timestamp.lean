import HostPorts.Text.Blank

/-!
UTC instants of the proleptic Gregorian calendar, to the nanosecond. They are read from a relaxed
RFC 3339: blanks may stand between the parts, leading zeros may be missing, a space may stand for
the `T`, and any offset below a day is carried over into UTC. They are written in two ways, to the
whole second and exactly. Second 60 is a leap second.
-/
namespace HostPorts

def isLeapYear (year : Int) : Bool := year % 4 = 0 && (year % 100 ≠ 0 || year % 400 = 0)

def daysInMonth (year : Int) (month : Nat) : Nat :=
  match month with
  | 2 => if isLeapYear year then 29 else 28
  | 4 | 6 | 9 | 11 => 30
  | _ => 31

/-- The calendar fields of an instant, not yet checked. -/
structure Moment where
  year : Int
  month : Nat
  day : Nat
  hour : Nat
  minute : Nat
  second : Nat
  nano : Nat
  deriving DecidableEq

def Moment.Valid (m : Moment) : Prop :=
  -262143 ≤ m.year ∧ m.year ≤ 262142 ∧ 1 ≤ m.month ∧ m.month ≤ 12 ∧
    1 ≤ m.day ∧ m.day ≤ daysInMonth m.year m.month ∧
    m.hour < 24 ∧ m.minute < 60 ∧ m.second ≤ 60 ∧ m.nano < 1000000000

instance (m : Moment) : Decidable m.Valid :=
  inferInstanceAs (Decidable (_ ∧ _ ∧ _ ∧ _ ∧ _ ∧ _ ∧ _ ∧ _ ∧ _ ∧ _))

structure Timestamp where
  moment : Moment
  valid : moment.Valid
  deriving DecidableEq

def Moment.check (m : Moment) : Option Timestamp := if h : m.Valid then some ⟨m, h⟩ else none

def Moment.dayBefore (m : Moment) : Moment :=
  if 1 < m.day then { m with day := m.day - 1 }
  else if 1 < m.month then
    { m with month := m.month - 1, day := daysInMonth m.year (m.month - 1) }
  else { m with year := m.year - 1, month := 12, day := 31 }

def Moment.dayAfter (m : Moment) : Moment :=
  if m.day < daysInMonth m.year m.month then { m with day := m.day + 1 }
  else if m.month < 12 then { m with month := m.month + 1, day := 1 }
  else { m with year := m.year + 1, month := 1, day := 1 }

/-- The same instant on a clock that stands `minutes` further back, for less than a day. -/
def Moment.back (m : Moment) (minutes : Int) : Moment :=
  let total : Int := 60 * m.hour + m.minute - minutes
  let (m, total) :=
    if total < 0 then (m.dayBefore, total + 1440)
    else if 1440 ≤ total then (m.dayAfter, total - 1440)
    else (m, total)
  { m with hour := total.toNat / 60, minute := total.toNat % 60 }

namespace Timestamp

def digitsValue (digits : List Char) : Nat :=
  digits.foldl (fun n c => 10 * n + (c.toNat - '0'.toNat)) 0

def takeField (width : Nat) (chars : List Char) : Option (Nat × List Char) :=
  let chars := Text.dropBlank chars
  let digits := (chars.take width).takeWhile Char.isDigit
  if digits.isEmpty then none else some (digitsValue digits, chars.drop digits.length)

def takeYear (chars : List Char) : Option (Int × List Char) :=
  match Text.dropBlank chars with
  | '-' :: rest => signed rest fun n => -(n : Int)
  | '+' :: rest => signed rest fun n => n
  | rest => (takeField 4 rest).map fun (n, rest) => ((n : Int), rest)
where
  signed (rest : List Char) (value : Nat → Int) : Option (Int × List Char) :=
    let digits := rest.takeWhile Char.isDigit
    if digits.isEmpty then none
    else some (value (digitsValue digits), rest.drop digits.length)

def takeChar (c : Char) (chars : List Char) : Option (List Char) :=
  match Text.dropBlank chars with
  | d :: rest => if d = c then some rest else none
  | [] => none

/-- A point and digits; those after the ninth do not count. -/
def takeFraction (chars : List Char) : Option (Nat × List Char) :=
  match chars with
  | '.' :: rest =>
    let digits := rest.takeWhile Char.isDigit
    if digits.isEmpty then none
    else
      let nine := digits.take 9
      some (digitsValue nine * Nat.pow 10 (9 - nine.length), rest.drop digits.length)
  | _ => some (0, chars)

/-- `Z`, `UTC` or a sign, two digits of hours and two of minutes; the offset in minutes. -/
def takeOffset (chars : List Char) : Option (Int × List Char) :=
  match chars with
  | 'Z' :: rest | 'z' :: rest => some (0, rest)
  | '+' :: rest => hours rest fun n => n
  | '-' :: rest | '−' :: rest => hours rest fun n => -(n : Int)
  | u :: t :: c :: rest =>
    if [u.toUpper, t.toUpper, c.toUpper] = ['U', 'T', 'C'] then some (0, rest) else none
  | _ => none
where
  hours (chars : List Char) (value : Nat → Int) : Option (Int × List Char) :=
    match chars with
    | h₁ :: h₂ :: rest =>
      if h₁.isDigit ∧ h₂.isDigit then
        match rest.dropWhile (fun c => c = ':' || Text.isBlank c) with
        | m₁ :: m₂ :: rest =>
          if m₁.isDigit ∧ m₂.isDigit ∧ digitsValue [m₁] < 6 then
            let total := 60 * digitsValue [h₁, h₂] + digitsValue [m₁, m₂]
            if total < 1440 then some (value total, rest) else none
          else none
        | _ => none
      else none
    | _ => none

def takeSeparator : List Char → Option (List Char)
  | c :: rest => if c = 'T' ∨ c = 't' ∨ c = ' ' then some rest else none
  | [] => none

def read? (text : String) : Option Timestamp := do
  let (year, rest) ← takeYear text.toList
  let (month, rest) ← takeField 2 (← takeChar '-' rest)
  let (day, rest) ← takeField 2 (← takeChar '-' rest)
  let (hour, rest) ← takeField 2 (← takeSeparator rest)
  let (minute, rest) ← takeField 2 (← takeChar ':' rest)
  let (second, rest) ← takeField 2 (← takeChar ':' rest)
  let (nano, rest) ← takeFraction rest
  let (offset, rest) ← takeOffset (Text.dropBlank rest)
  if (Text.dropBlank rest).isEmpty then
    let local_ ← Moment.check ⟨year, month, day, hour, minute, second, nano⟩
    (local_.moment.back offset).check
  else none

def padded (width n : Nat) : List Char :=
  let digits := Nat.toDigits 10 n
  List.replicate (width - digits.length) '0' ++ digits

def renderYear (year : Int) : List Char :=
  if 0 ≤ year ∧ year ≤ 9999 then padded 4 year.toNat
  else (if year < 0 then '-' else '+') :: padded 4 year.natAbs

def renderFields (m : Moment) : List Char :=
  renderYear m.year ++ '-' :: padded 2 m.month ++ '-' :: padded 2 m.day ++
    'T' :: padded 2 m.hour ++ ':' :: padded 2 m.minute ++ ':' :: padded 2 m.second

def renderSeconds (t : Timestamp) : String := String.ofList (renderFields t.moment ++ ['Z'])

/-- A fraction in groups of three digits, as few as keep it. -/
def renderFraction (nano : Nat) : List Char :=
  if nano = 0 then []
  else if nano % 1000000 = 0 then '.' :: padded 3 (nano / 1000000)
  else if nano % 1000 = 0 then '.' :: padded 6 (nano / 1000)
  else '.' :: padded 9 nano

def renderExact (t : Timestamp) : String :=
  String.ofList (renderFields t.moment ++ renderFraction t.moment.nano ++ ['Z'])

end Timestamp
end HostPorts
