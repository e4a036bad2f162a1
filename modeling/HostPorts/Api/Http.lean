import HostPorts.Json.Reader
import HostPorts.Json.Writer

/-!
Requests to an API server and its answers, and which names can stand in a request path.
-/
namespace HostPorts.Api

structure HttpRequest where
  method : String
  target : String
  contentType : Option String := none
  body : Option Json := none

inductive HttpAnswer where
  | reply (status : Nat) (body : String)
  | failure

def isPathChar (c : Char) : Bool :=
  let n := c.toNat
  n = 0x21 || n = 0x22 || (0x24 ≤ n && n ≤ 0x3B) || n = 0x3D || (0x3F ≤ n && n ≤ 0x5F) ||
    (0x61 ≤ n && n ≤ 0x7E) || 0x80 ≤ n

def isQueryChar (c : Char) : Bool :=
  let n := c.toNat
  n = 0x21 || (0x24 ≤ n && n ≤ 0x3B) || n = 0x3D || (0x3F ≤ n && n ≤ 0x7E) || 0x80 ≤ n

/-- The part before a `#`, in its path and query; none if a character cannot stand there. -/
def target? (text : String) : Option String :=
  let seen := text.toList.takeWhile (· ≠ '#')
  let path := seen.takeWhile (· ≠ '?')
  let query := (seen.dropWhile (· ≠ '?')).drop 1
  if path.all isPathChar && query.all isQueryChar then
    some (String.ofList (if query.isEmpty then path else path ++ '?' :: query))
  else none

end HostPorts.Api
