import HostPorts.Json.Basic
import HostPorts.Timestamp

/-!
Status conditions: a list with one entry per type, in the order of first setting. Setting a
condition again overwrites reason and message; the transition time moves only with the status.
-/
namespace HostPorts

inductive ConditionStatus where
  | true_
  | false_
  | unknown
  deriving DecidableEq

def ConditionStatus.word : ConditionStatus → String
  | .true_ => "True"
  | .false_ => "False"
  | .unknown => "Unknown"

def ConditionStatus.ofWord? : String → Option ConditionStatus
  | "True" => some .true_
  | "False" => some .false_
  | "Unknown" => some .unknown
  | _ => none

structure Condition where
  type : String
  status : ConditionStatus
  reason : String
  message : String
  lastTransition : Option Timestamp := none
  deriving DecidableEq

namespace Condition

/-- Times of conditions keep their fraction. -/
def readTime? (j : Json) : Option Timestamp := j.str?.bind Timestamp.read?

def read? (j : Json) : Option Condition := do
  let m ← j.record? ["type", "status", "reason", "message", "lastTransitionTime"] 2
  return {
    type := ← m.required "type" Json.str?
    status := ← m.required "status" fun j => j.word?.bind ConditionStatus.ofWord?
    reason := ← m.defaulted "reason" "" Json.str?
    message := ← m.defaulted "message" "" Json.str?
    lastTransition := ← m.optional "lastTransitionTime" readTime? }

def write (c : Condition) : Json :=
  .obj (Json.member "lastTransitionTime" (fun t => .str t.renderExact) c.lastTransition ++
    [("message", .str c.message), ("reason", .str c.reason), ("status", .str c.status.word),
      ("type", .str c.type)])

end Condition

abbrev Conditions := List Condition

namespace Conditions

def find? (conditions : Conditions) (type : String) : Option Condition :=
  List.find? (fun c => c.type = type) conditions

def revise (now : Timestamp) (held new : Condition) : Condition :=
  { held with
    status := new.status
    reason := new.reason
    message := new.message
    lastTransition :=
      if held.status = new.status then held.lastTransition
      else some (new.lastTransition.getD now) }

def differs (held new : Condition) : Bool :=
  held.status ≠ new.status || held.reason ≠ new.reason || held.message ≠ new.message

/-- Revises the first entry of the new one's type or appends the new one; whether that changes
anything, and the list. -/
def set (now : Timestamp) (conditions : Conditions) (new : Condition) : Bool × Conditions :=
  match conditions with
  | [] => (true, [{ new with lastTransition := some (new.lastTransition.getD now) }])
  | held :: rest =>
    if held.type = new.type then (differs held new, revise now held new :: rest)
    else
      let (changed, rest) := set now rest new
      (changed, held :: rest)

def remove (conditions : Conditions) (type : String) : Bool × Conditions :=
  let kept := conditions.filter fun c => c.type ≠ type
  (decide (kept.length ≠ conditions.length), kept)

def isTrue (conditions : Conditions) (type : String) : Bool :=
  (conditions.find? type).any fun c => c.status = .true_

def isFalse (conditions : Conditions) (type : String) : Bool :=
  (conditions.find? type).any fun c => c.status = .false_

end Conditions
end HostPorts
