import Mathlib.Tactic.Basic

namespace ImpossibleVoice.Lib

inductive Wait
  | value
  | timer
deriving DecidableEq

inductive Waited
  | ready
  | elapsed
  | pending (next : Wait)
deriving DecidableEq

/-- One access of a bounded wait: the future answers a poll, or the clock does. -/
def timeoutAt (deadline now : Nat) (ready : Bool) : Wait → Waited
  | .value => if ready = true then .ready else .pending .timer
  | .timer => if deadline ≤ now then .elapsed else .pending .value

variable {deadline now : Nat} {ready : Bool} {wait next : Wait}

theorem timeoutAt_ready (h : timeoutAt deadline now ready wait = .ready) :
    wait = .value ∧ ready = true := by
  cases wait with
  | value =>
      cases ready with
      | true => exact ⟨rfl, rfl⟩
      | false => cases h
  | timer =>
      rw [timeoutAt] at h
      split at h <;> cases h

theorem timeoutAt_elapsed (h : timeoutAt deadline now ready wait = .elapsed) :
    wait = .timer ∧ deadline ≤ now := by
  cases wait with
  | value => cases ready <;> cases h
  | timer =>
      rw [timeoutAt] at h
      split at h
      case isTrue hpast => exact ⟨rfl, hpast⟩
      case isFalse => cases h

theorem timeoutAt_pending (h : timeoutAt deadline now ready wait = .pending next) :
    (wait = .value ∧ ready = false ∧ next = .timer) ∨
    (wait = .timer ∧ now < deadline ∧ next = .value) := by
  cases wait with
  | value =>
      cases ready with
      | true => cases h
      | false =>
          cases h
          exact .inl ⟨rfl, rfl, rfl⟩
  | timer =>
      rw [timeoutAt] at h
      split at h
      case isTrue => cases h
      case isFalse hearly =>
        cases h
        exact .inr ⟨rfl, Nat.not_le.mp hearly, rfl⟩

end ImpossibleVoice.Lib
