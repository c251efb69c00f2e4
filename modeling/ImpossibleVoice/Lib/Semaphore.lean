import Mathlib.Logic.Basic

namespace ImpossibleVoice.Lib

structure Semaphore where
  available : Nat
  closed : Bool
deriving DecidableEq

namespace Semaphore

def new (permits : Nat) : Semaphore := ⟨permits, false⟩

def tryAcquire (s : Semaphore) : Option Semaphore :=
  if s.closed = true ∨ s.available = 0 then none else some { s with available := s.available - 1 }

def release (s : Semaphore) : Semaphore := { s with available := s.available + 1 }

@[simp] theorem available_release (s : Semaphore) : s.release.available = s.available + 1 := rfl

@[simp] theorem closed_release (s : Semaphore) : s.release.closed = s.closed := rfl

theorem tryAcquire_eq_some {s t : Semaphore} (h : s.tryAcquire = some t) :
    s.available = t.available + 1 ∧ t.closed = s.closed := by
  unfold tryAcquire at h
  split at h
  · cases h
  · next hopen =>
      cases h
      refine ⟨?_, rfl⟩
      simp only [not_or] at hopen
      simp only
      omega

theorem tryAcquire_eq_none {s : Semaphore} (hopen : s.closed = false) (h : s.tryAcquire = none) :
    s.available = 0 := by
  unfold tryAcquire at h
  split at h
  · next hguard =>
      rw [hopen] at hguard
      simpa using hguard
  · cases h

end Semaphore

end ImpossibleVoice.Lib
