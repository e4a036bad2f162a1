import HostPorts.Admission.Injection
import Mathlib.Data.List.Nodup

/-!
Keys of annotations. A key is a prefix, a slash and the name of a port, so prefixes without a slash
never make up one key, and under the prefix of claims a port is named just once.
-/
namespace HostPorts

theorem slash_split {xs ys us vs : List Char} (noSlash : '/' ∉ xs) (noSlash' : '/' ∉ us)
    (same : xs ++ '/' :: ys = us ++ '/' :: vs) : xs = us ∧ ys = vs := by
  induction xs generalizing us with
  | nil =>
    cases us with
    | nil => simpa using same
    | cons u us =>
      simp only [List.nil_append, List.cons_append, List.cons.injEq] at same
      exact absurd (same.1 ▸ List.mem_cons_self) noSlash'
  | cons x xs ih =>
    cases us with
    | nil =>
      simp only [List.nil_append, List.cons_append, List.cons.injEq] at same
      exact absurd (same.1 ▸ List.mem_cons_self) noSlash
    | cons u us =>
      simp only [List.cons_append, List.cons.injEq] at same
      simp only [List.mem_cons, not_or] at noSlash noSlash'
      obtain ⟨front, back⟩ := ih noSlash.2 noSlash'.2 same.2
      exact ⟨by rw [same.1, front], back⟩

theorem slash_parts {a b c d : String} (noSlash : '/' ∉ a.toList) (noSlash' : '/' ∉ c.toList)
    (same : a ++ "/" ++ b = c ++ "/" ++ d) : a = c ∧ b = d := by
  have lists := congrArg String.toList same
  simp only [String.toList_append, List.append_assoc] at lists
  obtain ⟨front, back⟩ := slash_split noSlash noSlash' lists
  exact ⟨String.toList_inj.mp front, String.toList_inj.mp back⟩

theorem single_slash {a b c d : String} (noSlash : '/' ∉ a.toList) (noSlash' : '/' ∉ b.toList)
    (same : a ++ "/" ++ b = c ++ "/" ++ d) : a = c ∧ b = d := by
  have slashes := congrArg (fun text => text.toList.count '/') same
  simp only [String.toList_append, List.count_append, List.count_eq_zero_of_not_mem noSlash,
    List.count_eq_zero_of_not_mem noSlash'] at slashes
  refine slash_parts noSlash ?_ same
  apply List.count_eq_zero.mp
  omega

theorem keys_apart {prefixes : AnnotationPrefixes} (apart : prefixes.claim ≠ prefixes.port)
    (noSlash : '/' ∉ prefixes.claim.toList) (noSlash' : '/' ∉ prefixes.port.toList)
    (a b : String) : prefixes.claim ++ "/" ++ a ≠ prefixes.port ++ "/" ++ b :=
  fun same => apart (slash_parts noSlash noSlash' same).1

theorem under_prefix_iff {claimPrefix key value port claim : String} :
    (((claimPrefix.toList ++ ['/']).isPrefixOf? key.toList).map fun port =>
        (String.ofList port, value)) = some (port, claim) ↔
      key = claimPrefix ++ "/" ++ port ∧ value = claim := by
  rw [Option.map_eq_some_iff]
  simp only [List.isPrefixOf?_eq_some_iff_append_eq, Prod.mk.injEq]
  constructor
  · rintro ⟨rest, split, rfl, rfl⟩
    refine ⟨?_, rfl⟩
    rw [← String.toList_inj, ← split]
    simp
  · rintro ⟨rfl, rfl⟩
    exact ⟨port.toList, by simp, by simp, rfl⟩

theorem mem_claimAnnotations {m : Metadata} {claimPrefix port claim : String} :
    (port, claim) ∈ claimAnnotations m claimPrefix ↔
      m.annotationMap.find? (claimPrefix ++ "/" ++ port) = some claim := by
  rw [SortedMap.find_eq_some_iff, claimAnnotations, List.mem_filterMap]
  constructor
  · rintro ⟨⟨key, value⟩, member, is⟩
    obtain ⟨rfl, rfl⟩ := under_prefix_iff.mp is
    exact member
  · intro member
    exact ⟨_, member, under_prefix_iff.mpr ⟨rfl, rfl⟩⟩

theorem key_lt_key_iff {claimPrefix port port' : String} :
    claimPrefix ++ "/" ++ port < claimPrefix ++ "/" ++ port' ↔ port < port' := by
  have under {a b : String} (less : a < b) : claimPrefix ++ "/" ++ a < claimPrefix ++ "/" ++ b := by
    simp only [String.lt_iff, String.toList_append]
    exact List.append_left_lt (String.lt_iff.mp less)
  refine ⟨fun less => ?_, under⟩
  by_contra notLess
  rcases eq_or_ne port port' with rfl | ne
  · exact String.lt_irrefl _ less
  · exact String.lt_asymm less (under (key_lt_of_not_lt_of_ne notLess ne))

theorem claimAnnotations_ascending (m : Metadata) (claimPrefix : String) :
    (claimAnnotations m claimPrefix).Pairwise fun a b => a.1 < b.1 := by
  rw [claimAnnotations, List.pairwise_filterMap]
  refine m.annotationMap.sorted.imp ?_
  rintro ⟨key, value⟩ ⟨key', value'⟩ less ⟨port, claim⟩ is ⟨port', claim'⟩ is'
  obtain ⟨rfl, _⟩ := under_prefix_iff.mp is
  obtain ⟨rfl, _⟩ := under_prefix_iff.mp is'
  exact key_lt_key_iff.mp less

theorem claimAnnotations_once (m : Metadata) (claimPrefix : String) :
    ((claimAnnotations m claimPrefix).map Prod.fst).Nodup := by
  rw [List.Nodup, List.pairwise_map]
  refine (claimAnnotations_ascending m claimPrefix).imp fun {a b} less same => ?_
  rw [same] at less
  exact String.lt_irrefl _ less

theorem annotated_of_claimed {metadata : Metadata} {claimPrefix : String}
    (some : claimAnnotations metadata claimPrefix ≠ []) : metadata.annotations.isSome = true := by
  cases annotations : metadata.annotations with
  | none => simp [claimAnnotations, Metadata.annotationMap, annotations, SortedMap.empty] at some
  | some _ => rfl

theorem filterMap_insertEntry {α β : Type} {f : String × α → Option β} {key : String}
    (none : ∀ value, f (key, value) = none) (value : α) (entries : List (String × α)) :
    (insertEntry key value entries).filterMap f = entries.filterMap f := by
  induction entries with
  | nil => simp [insertEntry, none]
  | cons entry rest ih =>
    obtain ⟨key', value'⟩ := entry
    rw [insertEntry]
    split
    · rw [List.filterMap_cons_none (none value)]
    · split
      next same =>
        subst same
        rw [List.filterMap_cons_none (none value), List.filterMap_cons_none (none value')]
      next => rw [List.filterMap_cons, List.filterMap_cons, ih]

theorem claimAnnotations_insert {m : Metadata} {claimPrefix key : String}
    (other : ∀ port, key ≠ claimPrefix ++ "/" ++ port) (value : String) :
    claimAnnotations { m with annotations := some (m.annotationMap.insert key value) } claimPrefix =
      claimAnnotations m claimPrefix := by
  apply filterMap_insertEntry
  intro value'
  rw [Option.eq_none_iff_forall_ne_some]
  rintro ⟨port, claim⟩ is
  exact other port (under_prefix_iff.mp is).1

end HostPorts
