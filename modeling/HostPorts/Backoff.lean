/-!
Retry delays that grow like the Fibonacci numbers up to a cap. Delays are whole seconds, and a sum
that does not fit in 64 bits is cut off at the greatest number that does.
-/
namespace HostPorts

structure Backoff where
  previous : Nat
  current : Nat
  greatest : Nat
  deriving DecidableEq

namespace Backoff

def ceiling : Nat := 18446744073709551615

def start (least greatest : Nat) : Backoff := ⟨0, least, greatest⟩

/-- The delay that is due and the state after it. -/
def next (b : Backoff) : Nat × Backoff :=
  (b.current,
    { b with
      previous := b.current
      current := min (min (b.previous + b.current) ceiling) b.greatest })

def delays (b : Backoff) : Nat → List Nat
  | 0 => []
  | n + 1 => b.next.1 :: b.next.2.delays n

end Backoff
end HostPorts
