import HostPorts.Proofs.Api.Patches

/-!
Writing is stable. What an object is read from may leave fields out, give `null` for them, or give
them by position, and may give times in any zone; what the object is written as is read as the same
object, but for the fractions in the times of its metadata, and is what that object is written as
again (`written_form_stable`).
-/
namespace HostPorts

open Json (Inverts)

def Timestamp.inWholeSeconds (t : Timestamp) : Timestamp where
  moment := { t.moment with nano := 0 }
  valid := by
    obtain ⟨least, greatest, month, month', day, day', hour, minute, second, nano⟩ := t.valid
    exact ⟨least, greatest, month, month', day, day', hour, minute, second,
      Nat.lt_of_le_of_lt (Nat.zero_le _) nano⟩

namespace Metadata

variable {m : Metadata}

def inWholeSeconds (m : Metadata) : Metadata :=
  { m with
    creationTimestamp := m.creationTimestamp.map Timestamp.inWholeSeconds
    deletionTimestamp := m.deletionTimestamp.map Timestamp.inWholeSeconds }

theorem wholeSeconds_inWholeSeconds : m.inWholeSeconds.WholeSeconds := by
  intro t is
  obtain ⟨_, _, rfl⟩ | ⟨_, _, rfl⟩ := is.imp Option.map_eq_some_iff.mp Option.map_eq_some_iff.mp
  · rfl
  · rfl

theorem write_inWholeSeconds (m : Metadata) : m.inWholeSeconds.write = m.write := by
  have time (name : String) (t : Option Timestamp) :
      Json.member name writeTime (t.map Timestamp.inWholeSeconds) =
        Json.member name writeTime t := by
    cases t <;> rfl
  simp only [write, inWholeSeconds, time]

theorem read_write (m : Metadata) : read? m.write = some m.inWholeSeconds := by
  rw [← write_inWholeSeconds]
  exact read_of_alike wholeSeconds_inWholeSeconds rfl fun name => rfl

end Metadata

theorem Kind.inverts_status {k : Kind} (controlled : k ≠ .pod) (s : k.Status) :
    Inverts k.readStatus? k.writeStatus s := by
  have writes := k.writeStatus_eq controlled s
  constructor
  · rw [writes]
    nofun
  · rw [writes]
    exact readStatus_of_alike controlled (k.names_statusMembers s) writes fun name => rfl

namespace Object

variable {k : Kind}

def inWholeSeconds (o : Object k) : Object k := { o with metadata := o.metadata.inWholeSeconds }

theorem write_inWholeSeconds (o : Object k) : o.inWholeSeconds.write = o.write := by
  have specMember : o.inWholeSeconds.specMember = o.specMember := by cases k <;> rfl
  rw [write, specMember]
  simp only [inWholeSeconds, Metadata.write_inWholeSeconds]
  rfl

theorem read_write (controlled : k ≠ .pod) (o : Object k) :
    read? k o.write = some o.inWholeSeconds := by
  obtain ⟨metadata, spec, status⟩ := find_members controlled o
  exact read_of_members controlled o.names_members metadata o.metadata.read_write spec
    (Kind.inverts_spec controlled o.spec).reads
    (Members.optional_inverts _ "status" o.status status
      fun s _ => Kind.inverts_status controlled s)

end Object

/-- What is read is written so that it is read again, with the same specification and status and
with metadata that only lost the fractions of its times. Writing that gives nothing new. -/
theorem written_form_stable {k : Kind} (controlled : k ≠ .pod) (given : Json) :
    ∀ o ∈ Object.read? k given, ∃ o' : Object k,
      Object.read? k o.write = some o' ∧
      o'.spec = o.spec ∧ o'.status = o.status ∧ o'.metadata = o.metadata.inWholeSeconds ∧
      o'.write = o.write :=
  fun o _ =>
    ⟨o.inWholeSeconds, o.read_write controlled, rfl, rfl, rfl, o.write_inWholeSeconds⟩

def sparsePool : Json :=
  .obj [
    ("metadata", .obj [
      ("name", .str "edge"),
      ("labels", .null),
      ("creationTimestamp", .str "2024-02-29T23:59:60.5-01:30")]),
    ("spec", .arr [.str "web", Json.ofUInt16 5000, Json.ofUInt16 5009]),
    ("status", .obj [
      ("conditions", .arr [.obj [
        ("type", .str "Overlap"),
        ("status", .str "Unknown"),
        ("lastTransitionTime", .str "2024-03-01 12:00:00.25+02:00")]])])]

theorem written_form_stable_sparse : ∃ o ∈ Object.read? .portPool sparsePool, ∃ o' : PortPool,
    Object.read? .portPool o.write = some o' ∧ o' ≠ o ∧
      o'.spec = o.spec ∧ o'.status = o.status ∧ o'.write = o.write := by
  obtain ⟨o, reads, fractional⟩ : ∃ o ∈ Object.read? .portPool sparsePool,
      o.metadata.inWholeSeconds ≠ o.metadata := by
    have reads : (Object.read? .portPool sparsePool).any
        (fun o => o.metadata.inWholeSeconds ≠ o.metadata) = true := by decide +kernel
    simpa [Option.any_eq_true] using reads
  obtain ⟨o', again, spec, status, metadata, written⟩ :=
    written_form_stable (k := .portPool) nofun sparsePool o reads
  refine ⟨o, reads, o', again, ?_, spec, status, written⟩
  rintro rfl
  exact fractional metadata.symm

end HostPorts
