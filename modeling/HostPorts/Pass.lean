import HostPorts.Error
import HostPorts.Store.Request

/-!
Work on a store, one request at a time. A pass is data: the next request and what to do with each
possible reply. So one and the same pass can be run to its end on any store, interleaved with other
passes request by request, or stopped after any of them.
-/
namespace HostPorts

abbrev Request.Reply (r : Request) : Type := Except StoreError r.Answer

inductive Pass (α : Type) where
  | done (result : α)
  | call (request : Request) (next : request.Reply → Pass α)
  /-- From here to its end, the pass excludes other passes that have come to such a point. -/
  | alone (rest : Pass α)

namespace Pass

def bind {α β : Type} : Pass α → (α → Pass β) → Pass β
  | .done a, f => f a
  | .call r next, f => .call r fun reply => (next reply).bind f
  | .alone rest, f => .alone (rest.bind f)

instance : Monad Pass where
  pure := .done
  bind := bind

def ask (r : Request) : Pass r.Reply := .call r .done

/-- Runs to the end on a store whose state is `σ`. -/
def run {σ α : Type} (answer : (r : Request) → σ → r.Reply × σ) : Pass α → σ → α × σ
  | .done a, s => (a, s)
  | .call r next, s => (next (answer r s).1).run answer (answer r s).2
  | .alone rest, s => rest.run answer s

theorem run_bind {σ α β : Type} (answer : (r : Request) → σ → r.Reply × σ) (p : Pass α)
    (f : α → Pass β) (s : σ) :
    (p.bind f).run answer s = (f (p.run answer s).1).run answer (p.run answer s).2 := by
  induction p generalizing s with
  | done a => rfl
  | call r next ih => exact ih _ _
  | alone rest ih => exact ih s

end Pass
end HostPorts
