import HostPorts.Text.Printable

/-!
Text in double quotes, as it appears inside messages. Characters that do not stand alone are
written by name or as `\u{…}` with their code point in lower-case hexadecimal.
-/
namespace HostPorts.Text

def quoteChar : Char → List Char
  | '"' => ['\\', '"']
  | '\\' => ['\\', '\\']
  | '\n' => ['\\', 'n']
  | '\r' => ['\\', 'r']
  | '\t' => ['\\', 't']
  | '\x00' => ['\\', '0']
  | c =>
    if standsAlone c then [c]
    else ['\\', 'u', '\x7b'] ++ Nat.toDigits 16 c.toNat ++ ['\x7d']

def quoted (s : String) : String := String.ofList ('"' :: s.toList.flatMap quoteChar ++ ['"'])

end HostPorts.Text
