import HostPorts.Proofs.Allocation.Choice
import HostPorts.Proofs.Pass.Runs

/-!
Port numbers are unique. Only a pass inside the lock gives out a number, and while it is inside no
other pass does, so the numbers of its listing are all there are when it writes; the version check
of the store sees to it that the write meets the port that was read.
-/
namespace HostPorts

/-- Ports as users may create them: named, in no namespace and without a number. -/
def UserAct.CreatesPlainPorts : UserAct → Prop
  | .insert .port p _ => p.metadata.name ≠ none ∧ p.metadata.namespace_ = none ∧ Port.number p = 0
  | _ => True

instance : DecidablePred UserAct.CreatesPlainPorts
  | .insert k _ _ =>
    match k with
    | .port => inferInstanceAs (Decidable (_ ∧ _))
    | .portClass | .portPool | .portClaim | .pod => isTrue trivial
  | .delete .. => isTrue trivial
  | .failNextStatusWrite => isTrue trivial

namespace Store

variable {s s' s'' : Store}

def NoNewNumbers (s s' : Store) : Prop :=
  ∀ key (p : Port), s'.find .port key = some p → p.number ≠ 0 →
    ∃ old : Port, s.find .port key = some old ∧ old.number = p.number

structure Numbered (s : Store) : Prop where
  orderly : s.Orderly
  named : s.ClusterWide .port
  distinct : ∀ key (p : Port) key' (p' : Port), s.find .port key = some p →
    s.find .port key' = some p' → p.number ≠ 0 → p.number = p'.number → key = key'

theorem NoNewNumbers.refl (s : Store) : NoNewNumbers s s := fun _ p found _ => ⟨p, found, rfl⟩

theorem NoNewNumbers.trans (h : NoNewNumbers s s') (h' : NoNewNumbers s' s'') :
    NoNewNumbers s s'' := by
  intro key p found held
  obtain ⟨mid, foundMid, sameMid⟩ := h' key p found held
  obtain ⟨old, foundOld, sameOld⟩ := h key mid foundMid (by rwa [sameMid])
  exact ⟨old, foundOld, sameOld.trans sameMid⟩

theorem NoNewNumbers.of_same (same : ∀ key, s'.find .port key = s.find .port key) :
    NoNewNumbers s s' :=
  fun key p found _ => ⟨p, (same key).symm.trans found, rfl⟩

theorem NoNewNumbers.of_puts {key : String} {new : Option Port} (puts : Puts s s' .port key new)
    (kept : ∀ p : Port, new = some p → p.number ≠ 0 →
      ∃ old : Port, s.find .port key = some old ∧ old.number = p.number) : NoNewNumbers s s' := by
  intro key' p found held
  rcases puts.find_same found with ⟨rfl, eq⟩ | ⟨_, old⟩
  · exact kept p eq held
  · exact ⟨p, old, rfl⟩

theorem NoNewNumbers.perform {a : UserAct} (s : Store) (ok : a.CreatesPlainPorts) :
    NoNewNumbers s (a.perform s) := by
  rcases a.perform_cases s with same | ⟨k, o, now, is, _, _, puts⟩ |
    ⟨k, ref, now, old, is, found, change⟩
  · exact .of_same (same.find .port)
  · by_cases kinds : k = .port
    · subst kinds is
      refine .of_puts puts ?_
      intro p eq held
      cases eq
      exact absurd ok.2.2 held
    · exact .of_same (puts.find_other (Ne.symm kinds))
  · by_cases kinds : k = .port
    · subst kinds
      rcases change with ⟨_, puts⟩ | ⟨_, _, puts⟩
      · exact .of_puts puts (by simp)
      · refine .of_puts puts ?_
        intro p eq _
        cases eq
        exact ⟨old, found, rfl⟩
    · rcases change with ⟨_, puts⟩ | ⟨_, _, puts⟩
      · exact .of_same (puts.find_other (Ne.symm kinds))
      · exact .of_same (puts.find_other (Ne.symm kinds))

namespace Numbered

theorem of_noNewNumbers (h : Numbered s) (orderly : s'.Orderly) (named : s'.ClusterWide .port)
    (kept : NoNewNumbers s s') : Numbered s' := by
  refine ⟨orderly, named, ?_⟩
  intro key p key' p' found found' held same
  obtain ⟨old, foundOld, sameOld⟩ := kept key p found held
  obtain ⟨old', foundOld', sameOld'⟩ := kept key' p' found' (by rwa [← same])
  exact h.distinct key old key' old' foundOld foundOld' (by rwa [sameOld])
    (sameOld.trans (same.trans sameOld'.symm))

theorem of_puts (h : Numbered s) (orderly : s'.Orderly) (named : s'.ClusterWide .port)
    {key : String} {new : Port} (puts : Puts s s' .port key (some new))
    (free : ∀ key' (q : Port), s.find .port key' = some q → q.number ≠ 0 →
      q.number = new.number → key' = key) : Numbered s' := by
  refine ⟨orderly, named, ?_⟩
  intro key₁ p₁ key₂ p₂ found₁ found₂ held same
  rcases puts.find_same found₁ with ⟨rfl, eq₁⟩ | ⟨_, old₁⟩ <;>
    rcases puts.find_same found₂ with ⟨rfl, eq₂⟩ | ⟨_, old₂⟩
  · rfl
  · cases eq₁
    exact (free key₂ p₂ old₂ (by rwa [← same]) same.symm).symm
  · cases eq₂
    exact free key₁ p₁ old₁ held same
  · exact h.distinct key₁ p₁ key₂ p₂ old₁ old₂ held same

theorem empty : Numbered {} := by
  refine ⟨.empty, .empty, ?_⟩
  intro key p key' p' found
  exact absurd found Store.not_find_empty

theorem perform (h : Numbered s) {a : UserAct} (ok : a.CreatesPlainPorts) :
    Numbered (a.perform s) := by
  refine h.of_noNewNumbers (h.orderly.perform a) ?_ (.perform s ok)
  apply h.named.perform
  intro p now is
  subst is
  exact ⟨ok.1, ok.2.1⟩

end Numbered
end Store

namespace Discipline

/-- Outside the lock nobody gives out numbers, and inside nobody else does. -/
def numbers : Discipline where
  inv := Store.Numbered
  rely sec s s' := s.Evolves s' ∧ (sec.isInside = true → s.NoNewNumbers s')
  promise sec s s' := sec.isInside = false → s.NoNewNumbers s'
  rely_refl _ s := ⟨.refl s, fun _ => .refl s⟩
  rely_trans _ _ h h' := ⟨h.1.trans h'.1, fun inside => (h.2 inside).trans (h'.2 inside)⟩
  rely_outside h := ⟨h.1, fun inside => by contradiction⟩
  promise_refl _ s _ := .refl s
  inv_orderly h := h.orderly
  rely_evolves h := h.1

variable {s : Store} {sec : Section} {p : Port} {a : Allocation}

theorem Chosen.free (chosen : numbers.Chosen p a sec s) (valid : numbers.inv s) {key : String}
    (here : s.find .port key = some p) {key' : String} {q : Port}
    (found : s.find .port key' = some q) (held : q.number ≠ 0) (same : q.number = a.port) :
    key' = key := by
  cases chosen with
  | @intro _ _ s₂ _ valid₂ _ drift₂ choice =>
    obtain ⟨old, foundOld, sameOld⟩ := drift₂.2 rfl key' q found held
    have listed : old ∈ s₂.ports.values := Store.mem_values.mpr ⟨key', foundOld⟩
    have names := (Port.allocation_spec choice).2 old listed (by rwa [sameOld])
      (sameOld.trans same)
    have nameOld := (valid₂.named key' old foundOld).1
    have name := (valid.named key p here).1
    simpa [Object.displayName, Metadata.displayName, nameOld, name] using names

/-- Whoever gives out a number is inside and takes a free one. -/
theorem numbers_upheld (claimPrefix : String) : numbers.Upholds claimPrefix where
  idle {sec s s'} valid same := by
    have kept : s.NoNewNumbers s' := .of_same (same.find .port)
    refine ⟨?_, fun _ => kept⟩
    exact valid.of_noNewNumbers (valid.orderly.of_unchanged same) (valid.named.of_unchanged same)
      kept
  deed {sec s s' k key new} valid orderly puts deed := by
    have named := deed.clusterWide puts valid.named
    have quiet : s.NoNewNumbers s' → numbers.Keeps sec s s' := fun kept =>
      ⟨valid.of_noNewNumbers orderly named kept, fun _ => kept⟩
    by_cases kinds : k = .port
    · subst kinds
      cases new with
      | none => exact quiet (.of_puts puts (by simp))
      | some p =>
        rcases deed.number with zero | ⟨old, found, _, same, _⟩ |
          ⟨old, a, found, _, number, _, chosen⟩
        · refine quiet (.of_puts puts ?_)
          intro p' eq held
          cases eq
          exact absurd zero held
        · refine quiet (.of_puts puts ?_)
          intro p' eq _
          cases eq
          exact ⟨old, found, same.symm⟩
        · refine ⟨valid.of_puts orderly named puts ?_, ?_⟩
          · intro key' q found' held same
            exact chosen.free valid found found' held (same.trans number)
          · intro outside
            cases chosen
            contradiction
    · exact quiet (.of_same (puts.find_other (Ne.symm kinds)))

theorem numbers_coordinated : numbers.Coordinates fun _ act => act.CreatesPlainPorts where
  start := .empty
  among {sec other s s'} _ evolves keeps apart := by
    refine ⟨evolves, ?_⟩
    intro inside
    rcases apart with outside | outside
    · exact keeps.2 outside
    · rw [inside] at outside
      contradiction
  act {S a} valid ok := by
    refine ⟨valid.perform ok, ?_⟩
    intro p _
    exact ⟨S.store.evolves_perform a, fun _ => .perform S.store ok⟩

end Discipline

/-- However passes interleave, two ports never hold the same number. -/
theorem numbers_unique {claimPrefix : String} {S : Cluster}
    (reachable : S.Reachable (fun _ act => act.CreatesPlainPorts) claimPrefix)
    {key key' : String} {p p' : Port} (stored : S.store.find .port key = some p)
    (stored' : S.store.find .port key' = some p') (apart : key ≠ key') (held : p.number ≠ 0) :
    p.number ≠ p'.number := by
  have holds := Discipline.holds_of_reachable (Discipline.numbers_upheld claimPrefix)
    Discipline.numbers_coordinated reachable
  intro same
  exact apart (holds.inv.distinct key p key' p' stored stored' held same)

open Cluster (noon)

def interleavedAllocations : List Cluster.Move :=
  [.act (.insert .portClass ⟨{ name := some "c" }, ⟨⟩, none⟩ noon),
    .act (.insert .portPool ⟨{ name := some "n" }, ⟨"c", 5000, 5009, true⟩, none⟩ noon),
    .act (.insert .port ⟨{ name := some "a" }, ⟨none, "c"⟩, none⟩ noon),
    .act (.insert .port ⟨{ name := some "b" }, ⟨none, "c"⟩, none⟩ noon)] ++
  Cluster.Move.whole .portPool ⟨none, "n"⟩ 2 ++
  Cluster.Move.whole .portPool ⟨none, "n"⟩ 2 ++
  Cluster.Move.whole .portPool ⟨none, "n"⟩ 3 ++
  Cluster.Move.whole .port ⟨none, "a"⟩ 2 ++
  Cluster.Move.whole .port ⟨none, "b"⟩ 2 ++
  [.start noon .port ⟨none, "a"⟩, .start noon .port ⟨none, "b"⟩, .call 0 noon, .call 1 noon,
    .call 1 noon, .call 0 noon, .enter 1, .call 1 noon, .call 1 noon, .call 1 noon, .leave 1,
    .enter 0, .call 0 noon, .call 0 noon, .call 0 noon, .leave 0]

theorem numbers_unique_interleaved :
    let s := (Cluster.after "claims" interleavedAllocations).store
    ∃ a b : Port, s.find .port "a" = some a ∧ s.find .port "b" = some b ∧ a.number = 5000 ∧
      a.number ≠ b.number := by
  intro s
  have reachable : (Cluster.after "claims" interleavedAllocations).Reachable
      (fun _ act => act.CreatesPlainPorts) "claims" :=
    Cluster.reachable_after (fun _ _ fit => fit) (by decide +kernel) (by decide +kernel)
  have numberA : (s.find .port "a").map Port.number = some 5000 := by decide +kernel
  have storedB : (s.find .port "b").isSome = true := by decide +kernel
  obtain ⟨a, stored, number⟩ := Option.map_eq_some_iff.mp numberA
  obtain ⟨b, stored'⟩ := Option.isSome_iff_exists.mp storedB
  have held : a.number ≠ 0 := by rw [number]; decide
  exact ⟨a, b, stored, stored', number, numbers_unique reachable stored stored' (by decide) held⟩

end HostPorts
