/-!
Unsigned decimal numbers with an upper limit. A leading plus sign is allowed, a minus sign is not a
digit, and of two faults the one further left is reported.
-/
namespace HostPorts.Text

inductive NaturalError where
  | empty
  | notADigit
  | tooLarge
  deriving DecidableEq

def NaturalError.message : NaturalError → String
  | .empty => "cannot parse integer from empty string"
  | .notADigit => "invalid digit found in string"
  | .tooLarge => "number too large to fit in target type"

def readDigits (limit : Nat) (value : Nat) : List Char → Except NaturalError Nat
  | [] => .ok value
  | c :: rest =>
    if c.isDigit then
      let next := 10 * value + (c.toNat - '0'.toNat)
      if limit < next then .error .tooLarge else readDigits limit next rest
    else .error .notADigit

def readNatural (limit : Nat) : List Char → Except NaturalError Nat
  | [] => .error .empty
  | ['+'] => .error .notADigit
  | '+' :: rest => readDigits limit 0 rest
  | chars => readDigits limit 0 chars

end HostPorts.Text
