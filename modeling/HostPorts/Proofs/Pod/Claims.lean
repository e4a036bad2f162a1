import HostPorts.Proofs.Object.Release
import Mathlib.Data.List.Chain
import Mathlib.Data.List.Triplewise

/-!
The claims that a pod concerns are those whose finalizers wait for it, but one of them may be listed
more than once: repeats are looked for between neighbours only, in the order of the ports, and so a
claim comes again after a port with another claim (`claims_of_pod_exact`).
-/
namespace HostPorts

open Dependency (podToClaims)
open Reconcile (finalizeClaim)

/-- The pod counts as a user of the claim: wherever it is stored, the finalizer of the claim leaves
everything as it is. -/
def Pod.Keeps (claimPrefix : String) (pod : Pod) (c : PortClaim) : Prop :=
  ∀ (s : Store) (key : String) (now : Timestamp), s.find .pod key = some pod →
    s.run now (finalizeClaim claimPrefix c) = (.ok (), s)

/-- Of three ports in the order of their names, the first and the last have one claim and the one
between them has another. -/
def Pod.SplitsClaim (claimPrefix : String) (pod : Pod) : Prop :=
  let claimFor port := pod.metadata.annotationMap.find? (claimPrefix ++ "/" ++ port)
  ∃ first between last claim other, first < between ∧ between < last ∧
    claimFor first = some claim ∧ claimFor between = some other ∧ claimFor last = some claim ∧
    claim ≠ "" ∧ other ≠ "" ∧ other ≠ claim

theorem triplewise_iff_of_ascending {α : Type} {p : α → α → α → Prop} {key : α → String}
    {entries : List α} (ascending : entries.Pairwise fun a b => key a < key b) :
    entries.Triplewise p ↔
      ∀ a ∈ entries, ∀ b ∈ entries, ∀ c ∈ entries, key a < key b → key b < key c → p a b c := by
  have places {i j : Nat} {hi : i < entries.length} {hj : j < entries.length}
      (less : key entries[i] < key entries[j]) : i < j := by
    rcases Nat.lt_trichotomy i j with before | rfl | after
    · exact before
    · exact absurd less (String.lt_irrefl _)
    · exact absurd less
        (String.lt_asymm (List.pairwise_iff_getElem.mp ascending j i hj hi after))
  rw [List.triplewise_iff_getElem]
  constructor
  · intro all a ha b hb c hc ab bc
    obtain ⟨i, _, rfl⟩ := List.mem_iff_getElem.mp ha
    obtain ⟨j, _, rfl⟩ := List.mem_iff_getElem.mp hb
    obtain ⟨k, hk, rfl⟩ := List.mem_iff_getElem.mp hc
    exact all i j k (places ab) (places bc) hk
  · intro all i j k ij jk hk
    have less := List.pairwise_iff_getElem.mp ascending
    exact all _ (List.getElem_mem _) _ (List.getElem_mem _) _ (List.getElem_mem _)
      (less i j _ _ ij) (less j k _ _ jk)

namespace Dependency

theorem head_dropRepeats (refs : List ObjectRef) : (dropRepeats refs).head? = refs.head? := by
  fun_induction dropRepeats refs with
  | case1 => rfl
  | case2 => rfl
  | case3 a rest ih => exact ih
  | case4 => rfl

theorem isChain_dropRepeats (refs : List ObjectRef) : (dropRepeats refs).IsChain (· ≠ ·) := by
  fun_induction dropRepeats refs with
  | case1 => exact .nil
  | case2 a => exact .singleton a
  | case3 a rest ih => exact ih
  | case4 a b rest ne ih =>
    rw [List.isChain_cons]
    refine ⟨fun next head => ?_, ih⟩
    rw [head_dropRepeats, List.head?_cons] at head
    cases head
    exact ne

theorem nodup_dropRepeats_iff {refs : List ObjectRef} :
    (dropRepeats refs).Nodup ↔ refs.Triplewise fun a b c => a = c → b = c := by
  fun_induction dropRepeats refs with
  | case1 => simp
  | case2 => simp
  | case3 a rest ih =>
    rw [ih, List.triplewise_cons, List.triplewise_cons, List.pairwise_cons]
    grind
  | case4 a b rest ne ih =>
    rw [List.nodup_cons, ih, mem_dropRepeats, List.triplewise_cons (a := a)]
    -- `a` is kept, so it must not come again, and if it does then `b` stands between
    refine and_congr_left fun _ => ⟨fun absent => ?_, fun all again => ?_⟩
    · exact List.pairwise_of_forall_mem_list fun _ _ c listed same => absurd (same ▸ listed) absent
    · rcases List.mem_cons.mp again with here | later
      · exact ne here
      · exact ne ((List.pairwise_cons.mp all).1 a later rfl).symm

variable {pod : Pod} {ns claimPrefix : String}

theorem podToClaims_eq (within : pod.metadata.namespace_ = some ns) (claimPrefix : String) :
    podToClaims pod claimPrefix = dropRepeats
      (((claimAnnotations pod.metadata claimPrefix).filter fun pair => pair.2 ≠ "").map
        fun pair => ⟨some ns, pair.2⟩) := by
  rw [podToClaims, within, ← List.filterMap_eq_map, List.filterMap_filter]
  refine congrArg dropRepeats (congrArg (List.filterMap · _) (funext fun pair => ?_))
  by_cases empty : pair.2 = "" <;> simp [empty]

theorem mem_podToClaims_iff {ref : ObjectRef} (within : pod.metadata.namespace_ = some ns) :
    ref ∈ podToClaims pod claimPrefix ↔
      ref.namespace_ = some ns ∧ ref.name ≠ "" ∧
        PortClaim.isUsedBy ref.name claimPrefix pod = true := by
  constructor
  · rw [podToClaims_eq within, mem_dropRepeats, List.mem_map]
    rintro ⟨pair, named, rfl⟩
    obtain ⟨listed, nonempty⟩ := List.mem_filter.mp named
    exact ⟨rfl, of_decide_eq_true nonempty, List.any_eq_true.mpr ⟨pair, listed, by simp⟩⟩
  · obtain ⟨_, name⟩ := ref
    rintro ⟨rfl, nonempty, used⟩
    exact mem_podToClaims nonempty within used

theorem nodup_podToClaims_iff (within : pod.metadata.namespace_ = some ns) :
    (podToClaims pod claimPrefix).Nodup ↔ ¬ pod.SplitsClaim claimPrefix := by
  have ascending := (claimAnnotations_ascending pod.metadata claimPrefix).filter
    fun pair => pair.2 ≠ ""
  rw [podToClaims_eq within, nodup_dropRepeats_iff, List.triplewise_map,
    triplewise_iff_of_ascending ascending]
  have listed (port claim : String) :
      (port, claim) ∈
          (claimAnnotations pod.metadata claimPrefix).filter (fun pair => pair.2 ≠ "") ↔
        pod.metadata.annotationMap.find? (claimPrefix ++ "/" ++ port) = some claim ∧ claim ≠ "" := by
    simp [mem_claimAnnotations]
  constructor
  · rintro together ⟨first, between, last, claim, other, before, after, named, named', again,
      nonempty, nonempty', ne⟩
    have same := together _ ((listed first claim).mpr ⟨named, nonempty⟩)
      _ ((listed between other).mpr ⟨named', nonempty'⟩)
      _ ((listed last claim).mpr ⟨again, nonempty⟩) before after rfl
    exact ne (congrArg ObjectRef.name same)
  · rintro whole ⟨first, claim⟩ named ⟨between, other⟩ named' ⟨last, claim'⟩ again before after same
    cases same
    obtain ⟨named, nonempty⟩ := (listed first claim).mp named
    obtain ⟨named', nonempty'⟩ := (listed between other).mp named'
    obtain ⟨again, _⟩ := (listed last claim).mp again
    by_contra ne
    refine whole ⟨first, between, last, claim, other, before, after, named, named', again, nonempty,
      nonempty', fun same => ne ?_⟩
    rw [same]

end Dependency

namespace Store

theorem writes_updateFinalizers {k : Kind} (o : Object k) (s : Store) :
    (s.updateFinalizers o).2.writes = s.writes + 1 := by
  rw [updateFinalizers, update]
  split
  · rfl
  · cases k <;> rfl

end Store

namespace PortClaim

variable {c : PortClaim} {claimPrefix : String}

theorem run_finalizeClaim (awaits : c.AwaitsRelease .ofClaim) (s : Store) (now : Timestamp) :
    s.run now (finalizeClaim claimPrefix c) =
      if (s.pods.values.filter fun pod =>
          pod.metadata.namespace_ = some (c.metadata.namespace_.getD "")).any
        (isUsedBy c.displayName claimPrefix) then (.ok (), s)
      else s.run now (Reconcile.release c) := by
  have due : DeletionStep.plan (c.phase = some .deleting) c.isProtected = .checkDependents := by
    simp [DeletionStep.plan, awaits.marked, awaits.isProtected]
  rw [finalizeClaim, due]
  change Store.run now (if _ then _ else _) s = _
  split <;> rfl

end PortClaim

theorem Object.displayName_of_ref {k : Kind} {o : Object k} {ns : Option String} {name : String}
    (is : o.ref = ⟨ns, name⟩) (nonempty : name ≠ "") : o.displayName = name := by
  have named : o.metadata.name.getD "" = name := (ObjectRef.mk.inj is).2
  cases own : o.metadata.name with
  | none => exact absurd (by simpa [own] using named) nonempty.symm
  | some _ => simpa [Object.displayName, Metadata.displayName, own] using named

open Cluster (noon)

theorem Pod.keeps_iff {pod : Pod} {c : PortClaim} {ns claimPrefix : String}
    (within : pod.metadata.namespace_ = some ns) (within' : c.metadata.namespace_ = some ns)
    (awaits : c.AwaitsRelease .ofClaim) :
    pod.Keeps claimPrefix c ↔ PortClaim.isUsedBy c.displayName claimPrefix pod = true := by
  constructor
  · intro keeps
    -- where it is the only pod, nothing else keeps the finalizer from its write
    let s : Store := { pods := SortedMap.empty.insert "" pod }
    have pods : s.pods.values = [pod] := rfl
    have stays := keeps s "" noon rfl
    have counted : (s.run noon (Reconcile.release c)).2.writes = s.writes + 1 :=
      Store.writes_updateFinalizers c.released s
    rw [PortClaim.run_finalizeClaim awaits, pods] at stays
    by_contra unused
    rw [if_neg (by simp [unused])] at stays
    rw [stays] at counted
    exact absurd counted (Nat.succ_ne_self _).symm
  · intro used s key now stored
    rw [PortClaim.run_finalizeClaim awaits, if_pos]
    refine List.any_eq_true.mpr ⟨pod, List.mem_filter.mpr ⟨?_, ?_⟩, used⟩
    · exact Store.mem_values.mpr ⟨key, stored⟩
    · simp [within, within']

/-- A pod concerns a claim of its namespace if and only if it counts as a user of that claim, and it
concerns nothing else. The list never has one claim twice in a row, and it has none twice at all if
and only if no claim of the pod is split. -/
theorem claims_of_pod_exact {pod : Pod} {ns : String} (within : pod.metadata.namespace_ = some ns)
    (claimPrefix : String) :
    (∀ name, name ≠ "" →
      (⟨some ns, name⟩ ∈ podToClaims pod claimPrefix ↔
        PortClaim.isUsedBy name claimPrefix pod = true) ∧
      ∀ c : PortClaim, c.ref = ⟨some ns, name⟩ → c.AwaitsRelease .ofClaim →
        (⟨some ns, name⟩ ∈ podToClaims pod claimPrefix ↔ pod.Keeps claimPrefix c)) ∧
      (∀ ref ∈ podToClaims pod claimPrefix, ref.namespace_ = some ns ∧ ref.name ≠ "") ∧
      (podToClaims pod claimPrefix).IsChain (· ≠ ·) ∧
      ((podToClaims pod claimPrefix).Nodup ↔ ¬ pod.SplitsClaim claimPrefix) := by
  refine ⟨fun name nonempty => ?_, ?_, ?_, Dependency.nodup_podToClaims_iff within⟩
  · have listed : ⟨some ns, name⟩ ∈ podToClaims pod claimPrefix ↔
        PortClaim.isUsedBy name claimPrefix pod = true := by
      rw [Dependency.mem_podToClaims_iff within]
      exact ⟨fun h => h.2.2, fun used => ⟨rfl, nonempty, used⟩⟩
    refine ⟨listed, fun c is awaits => ?_⟩
    have within' : c.metadata.namespace_ = some ns := (ObjectRef.mk.inj is).1
    rw [listed, Pod.keeps_iff within within' awaits, Object.displayName_of_ref is nonempty]
  · intro ref listed
    obtain ⟨namespace_, nonempty, _⟩ := (Dependency.mem_podToClaims_iff within).mp listed
    exact ⟨namespace_, nonempty⟩
  · rw [Dependency.podToClaims_eq within]
    exact Dependency.isChain_dropRepeats _

def podClaiming (claims : List (String × String)) : Pod where
  metadata := {
    name := some "x"
    namespace_ := some "t"
    annotations := some (.ofList (claims.map fun pair => ("claims/" ++ pair.1, pair.2))) }
  spec := none
  status := none

def sharingPod : Pod := podClaiming
  [("admin", "web"), ("http", "web"), ("metrics", ""), ("stats", "api")]

theorem claims_of_pod_exact_sharing :
    podToClaims sharingPod "claims" = [⟨some "t", "web"⟩, ⟨some "t", "api"⟩] ∧
      sharingPod.Keeps "claims" webClaim ∧ ¬ sharingPod.SplitsClaim "claims" := by
  have lists : podToClaims sharingPod "claims" = [⟨some "t", "web"⟩, ⟨some "t", "api"⟩] := by
    decide +kernel
  have within : sharingPod.metadata.namespace_ = some "t" := rfl
  obtain ⟨named, _, _, once⟩ := claims_of_pod_exact within "claims"
  have keeps := (named "web" (by decide)).2 webClaim rfl ⟨rfl, rfl, rfl, by decide⟩
  rw [lists] at keeps once
  exact ⟨lists, keeps.mp List.mem_cons_self, once.mp (by decide)⟩

/-- A claim is listed twice once a port with another claim stands between two of its own. -/
theorem split_claim_listed_twice :
    ¬ ∀ (pod : Pod) (ns claimPrefix : String), pod.metadata.namespace_ = some ns →
      (podToClaims pod claimPrefix).Nodup ∧
      ∀ name, name ≠ "" →
        (⟨some ns, name⟩ ∈ podToClaims pod claimPrefix ↔
          PortClaim.isUsedBy name claimPrefix pod = true) := by
  intro all
  obtain ⟨once, _⟩ :=
    all (podClaiming [("admin", "web"), ("http", "api"), ("stats", "web")]) "t" "claims" rfl
  revert once
  decide +kernel

end HostPorts
