import HostPorts.Protection
import Mathlib.Data.List.Count

/-!
Four tokens in one list with the finalizers of others. What a history of calls makes of the list is
told token by token: a token is held as the last call for it left it, in one copy unless it had more
all along, and nothing else is moved (`tokens_of_history`). Histories are listed with the latest
call first.
-/
namespace HostPorts.ProtectionToken

inductive Call where
  | attach (token : ProtectionToken)
  | release (token : ProtectionToken)
  deriving DecidableEq

namespace Call

def token : Call → ProtectionToken
  | attach token => token
  | release token => token

def perform : Call → Metadata → Bool × Metadata
  | attach token, m => token.attach m
  | release token, m => token.release m

@[simp] theorem token_attach (token : ProtectionToken) : (attach token).token = token := rfl

@[simp] theorem token_release (token : ProtectionToken) : (release token).token = token := rfl

def leaves : Call → Nat → Nat
  | attach _, copies => max 1 copies
  | release _, _ => 0

end Call

def performed (m : Metadata) : List Call → Metadata
  | [] => m
  | call :: before => (call.perform (performed m before)).2

def lastCall (token : ProtectionToken) (history : List Call) : Option Call :=
  history.find? fun call => call.token = token

def isForeign (finalizer : String) : Bool :=
  [ofClass, ofPool, ofClaim, ofPort].all fun token => finalizer ≠ token.text

variable {token : ProtectionToken} {call : Call} {history : List Call} {m : Metadata}

theorem text_injective : Function.Injective text := by
  intro a b same
  cases a <;> cases b <;> first | rfl | exact absurd same (by decide)

theorem isForeign_text (token : ProtectionToken) : isForeign token.text = false := by
  cases token <;> decide

theorem isHeldBy_iff : token.isHeldBy m = true ↔ 0 < m.finalizerList.count token.text := by
  rw [isHeldBy, List.contains_iff_mem, List.count_pos_iff]

theorem finalizerList_attach (token : ProtectionToken) (m : Metadata) :
    (token.attach m).2.finalizerList =
      if token.isHeldBy m then m.finalizerList else m.finalizerList ++ [token.text] := by
  unfold attach
  split <;> rfl

theorem finalizerList_release (token : ProtectionToken) (m : Metadata) :
    (token.release m).2.finalizerList = m.finalizerList.filter (· ≠ token.text) := by
  unfold release
  cases held : m.finalizers <;> simp [Metadata.finalizerList, held]

theorem attach_changed (token : ProtectionToken) (m : Metadata) :
    (token.attach m).1 = !token.isHeldBy m := by
  unfold attach
  split
  next held => simp [held]
  next free => simp [free]

theorem release_changed (token : ProtectionToken) (m : Metadata) :
    (token.release m).1 = token.isHeldBy m := by
  unfold release
  cases held : m.finalizers with
  | none => simp [isHeldBy, Metadata.finalizerList, held]
  | some finalizers =>
    rw [Bool.eq_iff_iff, decide_eq_true_iff, isHeldBy, List.contains_iff_mem, Ne,
      List.length_filter_eq_length_iff, Metadata.finalizerList, held]
    simp

namespace Call

theorem perform_only (call : Call) (m : Metadata) :
    (call.perform m).2 = { m with finalizers := (call.perform m).2.finalizers } := by
  cases call with
  | attach token =>
    rw [perform, ProtectionToken.attach]
    split <;> rfl
  | release token =>
    rw [perform, ProtectionToken.release]
    split <;> rfl

theorem filter_perform {p : String → Bool} (other : p call.token.text = false) (m : Metadata) :
    (call.perform m).2.finalizerList.filter p = m.finalizerList.filter p := by
  cases call with
  | attach token =>
    have out : [token.text].filter p = [] := List.filter_cons_of_neg (by simpa using other)
    rw [perform, finalizerList_attach]
    split
    · rfl
    · rw [List.filter_append, out, List.append_nil]
  | release token =>
    rw [perform, finalizerList_release, List.filter_filter]
    refine List.filter_congr fun finalizer _ => ?_
    by_cases same : finalizer = token.text
    · subst same
      simpa using other
    · simp [same]

theorem count_perform (call : Call) (m : Metadata) (token : ProtectionToken) :
    (call.perform m).2.finalizerList.count token.text =
      if call.token = token then call.leaves (m.finalizerList.count token.text)
      else m.finalizerList.count token.text := by
  split
  next same =>
    subst same
    cases call with
    | attach token =>
      rw [perform, finalizerList_attach, token_attach, leaves]
      split
      next held => exact (Nat.max_eq_right (isHeldBy_iff.mp held)).symm
      next free =>
        have none : m.finalizerList.count token.text = 0 := by
          rwa [isHeldBy_iff, Nat.not_lt, Nat.le_zero] at free
        rw [List.count_append, none, List.count_singleton_self]
        rfl
    | release token =>
      rw [perform, finalizerList_release, leaves]
      exact List.count_eq_zero.mpr fun among => by simpa using (List.mem_filter.mp among).2
  next other =>
    have apart : (call.token.text == token.text) = false := by
      simpa using text_injective.ne other
    rw [List.count_eq_length_filter, List.count_eq_length_filter, filter_perform apart]

theorem isHeldBy_perform (call : Call) (m : Metadata) (token : ProtectionToken) :
    token.isHeldBy (call.perform m).2 =
      if call.token = token then decide (call = attach token) else token.isHeldBy m := by
  rw [Bool.eq_iff_iff, isHeldBy_iff, count_perform]
  split
  next same =>
    subst same
    cases call with
    | attach token => simp [leaves, Nat.lt_of_lt_of_le Nat.one_pos (Nat.le_max_left 1 _)]
    | release token => simp [leaves]
  next => exact isHeldBy_iff.symm

theorem perform_changed_iff (call : Call) (m : Metadata) :
    (call.perform m).1 = true ↔ call.token.isHeldBy (call.perform m).2 ≠ call.token.isHeldBy m := by
  rw [isHeldBy_perform, if_pos rfl]
  cases call with
  | attach token => simp [perform, attach_changed]
  | release token => simp [perform, release_changed]

end Call

theorem performed_only (m : Metadata) (history : List Call) :
    performed m history = { m with finalizers := (performed m history).finalizers } := by
  induction history with
  | nil => rfl
  | cons call before ih => rw [performed, call.perform_only, ih]

theorem filter_performed (m : Metadata) (history : List Call) :
    (performed m history).finalizerList.filter isForeign = m.finalizerList.filter isForeign := by
  induction history with
  | nil => rfl
  | cons call before ih => rw [performed, Call.filter_perform (isForeign_text _), ih]

theorem isHeldBy_performed (m : Metadata) (history : List Call) (token : ProtectionToken) :
    token.isHeldBy (performed m history) = true ↔
      lastCall token history = some (.attach token) ∨
        lastCall token history = none ∧ token.isHeldBy m = true := by
  induction history with
  | nil => simp [performed, lastCall]
  | cons call before ih =>
    rw [performed, call.isHeldBy_perform, lastCall, List.find?_cons]
    by_cases its : call.token = token
    · simp [its]
    · simp only [its, if_false, decide_false]
      exact ih

/-- A token that was free at any time does not come to have a second copy. -/
theorem count_performed_le_one
    (freed : .release token ∈ history ∨ token.isHeldBy m = false) :
    (performed m history).finalizerList.count token.text ≤ 1 := by
  induction history with
  | nil =>
    have free : token.isHeldBy m = false := freed.resolve_left List.not_mem_nil
    rw [← Bool.not_eq_true, isHeldBy_iff] at free
    rw [performed]
    omega
  | cons call before ih =>
    rw [performed, call.count_perform]
    -- what frees the token is this very call, or else it came before
    by_cases last : call = .release token
    · simp [last, Call.leaves]
    · have earlier := ih (freed.imp_left fun among => List.mem_of_ne_of_mem (Ne.symm last) among)
      split
      · cases call with
        | attach _ => exact Nat.max_le.mpr ⟨Nat.le_refl 1, earlier⟩
        | release _ => exact Nat.zero_le 1
      · exact earlier

theorem count_performed_of_unreleased (unreleased : .release token ∉ history)
    (held : token.isHeldBy m = true) :
    (performed m history).finalizerList.count token.text = m.finalizerList.count token.text := by
  induction history with
  | nil => rfl
  | cons call before ih =>
    obtain ⟨last, earlier⟩ := not_or.mp (mt List.mem_cons.mpr unreleased)
    rw [performed, call.count_perform, ih earlier]
    split
    next its =>
      cases call with
      | attach _ => exact Nat.max_eq_right (isHeldBy_iff.mp held)
      | release _ => exact absurd (congrArg Call.release its.symm) last
    next => rfl

/-- After any history the finalizers that are no tokens stand as they stood, and so does the rest of
the metadata. A token is held just if the last call for it attached it, or it was held and there was
no call. It has at most one copy if it was released or was not held, and otherwise as many as it
had. The next call says that it changed something just if it changes whether its token is held. -/
theorem tokens_of_history (m : Metadata) (history : List Call) :
    let after := performed m history
    after = { m with finalizers := after.finalizers } ∧
      after.finalizerList.filter isForeign = m.finalizerList.filter isForeign ∧
      (∀ token : ProtectionToken, token.isHeldBy after = true ↔
        lastCall token history = some (.attach token) ∨
          lastCall token history = none ∧ token.isHeldBy m = true) ∧
      (∀ token : ProtectionToken, .release token ∈ history ∨ token.isHeldBy m = false →
        after.finalizerList.count token.text ≤ 1) ∧
      (∀ token : ProtectionToken, .release token ∉ history → token.isHeldBy m = true →
        after.finalizerList.count token.text = m.finalizerList.count token.text) ∧
      ∀ call : Call, (call.perform after).1 = true ↔
        call.token.isHeldBy (call.perform after).2 ≠ call.token.isHeldBy after :=
  ⟨performed_only m history, filter_performed m history, isHeldBy_performed m history,
    fun _ freed => count_performed_le_one freed,
    fun _ unreleased held => count_performed_of_unreleased unreleased held,
    fun call => call.perform_changed_iff _⟩

def doubled : Metadata where
  finalizers := some [ofClaim.text, "audit", ofPort.text, ofClaim.text, "audit", ofPort.text]

def turnover : List Call := [.attach ofPool, .attach ofClaim, .attach ofPort, .release ofClaim]

theorem tokens_of_history_doubled :
    .release ofClaim ∈ turnover ∧ ofPool.isHeldBy doubled = false ∧
      .release ofPort ∉ turnover ∧ ofPort.isHeldBy doubled = true ∧
      let after := performed doubled turnover
      after.finalizerList =
        ["audit", ofPort.text, "audit", ofPort.text, ofClaim.text, ofPool.text] ∧
      after.finalizerList.count ofClaim.text ≤ 1 ∧ after.finalizerList.count ofPool.text ≤ 1 ∧
      after.finalizerList.count ofPort.text = 2 := by
  have claim : .release ofClaim ∈ turnover := by decide
  have pool : ofPool.isHeldBy doubled = false := by decide
  have unreleased : .release ofPort ∉ turnover := by decide
  have port : ofPort.isHeldBy doubled = true := by decide
  obtain ⟨_, _, _, single, stays, _⟩ := tokens_of_history doubled turnover
  exact ⟨claim, pool, unreleased, port, by decide, single ofClaim (Or.inl claim),
    single ofPool (Or.inr pool), (stays ofPort unreleased port).trans (by decide)⟩

end HostPorts.ProtectionToken
