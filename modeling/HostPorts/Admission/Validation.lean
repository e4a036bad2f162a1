import HostPorts.Admission.FieldError
import HostPorts.Overlap

/-!
Rules that a write must keep: a pool's range is in order and clear of the other pools, and what a
claim or port has once settled on does not change.
-/
namespace HostPorts

namespace PortRange

def text (r : PortRange) : String := toString r.first.toNat ++ "-" ++ toString r.last.toNat

end PortRange

namespace PortPool

def rangeErrors (p : PortPool) : List FieldError :=
  let first := toString p.spec.first.toNat
  let last := toString p.spec.last.toNat
  (if p.spec.first = 0 then
    [FieldError.invalid "spec.start" first "must be greater than 0"] else []) ++
  (if p.spec.last = 0 then
    [FieldError.invalid "spec.end" last "must be greater than 0"] else []) ++
  (if p.spec.last < p.spec.first then
    [FieldError.invalid "spec.start" first "must be less than or equal to spec.end"] else [])

/-- The overlap check is made only for a range that is in order. -/
def errors (p : PortPool) (existing : List PortPool) : List FieldError :=
  if p.rangeErrors ≠ [] then p.rangeErrors
  else
    match p.findOverlap existing with
    | none => []
    | some other =>
      [FieldError.invalid "spec" p.range.text
        ("overlaps pool " ++ other.displayName ++ " (" ++ other.range.text ++ ")")]

end PortPool

namespace PortClaim

def updateErrors (new old : PortClaim) : List FieldError :=
  (if new.spec.classRef ≠ old.spec.classRef then
    [FieldError.forbidden "spec.classRef" "cannot change classRef"] else []) ++
  (if old.boundPortName.isSome && new.boundPortName ≠ old.boundPortName then
    [FieldError.forbidden "status.boundPortName" "cannot change boundPortName once set"] else [])

end PortClaim

namespace Port

def updateErrors (new old : Port) : List FieldError :=
  (if new.spec.classRef ≠ old.spec.classRef then
    [FieldError.forbidden "spec.classRef" "cannot change classRef"] else []) ++
  (if new.spec.claimRef ≠ old.spec.claimRef then
    [FieldError.forbidden "spec.claimRef" "cannot change claimRef"] else []) ++
  (if old.number ≠ 0 && new.number ≠ old.number then
    [FieldError.forbidden "status.port" "cannot change port once allocated"] else [])

/-- A number may only appear together with the settled phase; `old` is absent on creation. -/
def errors (new : Port) (old : Option Port) : List FieldError :=
  ((old.map (updateErrors new)).getD []) ++
  (if new.number ≠ 0 && new.number ≠ (old.map number).getD 0 && new.phase ≠ some .settled then
    [FieldError.invalid "status.port" (toString new.number.toNat)
      "port can only be set together with phase Allocated"] else [])

end Port
end HostPorts
