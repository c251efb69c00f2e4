import Mathlib.Data.List.Basic

namespace ImpossibleVoice.Lib

variable {α : Type}

/-- A bounded channel between a task that sends a list of items one after
another and a reader that may leave. -/
structure Pipe (α : Type) where
  pending : List α
  queue : List α
  received : List α
  reading : Bool

namespace Pipe

def empty : Pipe α := ⟨[], [], [], true⟩

def emit (p : Pipe α) (items : List α) : Pipe α := { p with pending := p.pending ++ items }

/-- The next `send`: it waits for room, and fails once the reader has left, with
which the task gives up the rest. -/
def send (capacity : Nat) (p : Pipe α) : Option (Pipe α) :=
  match p.pending with
  | [] => none
  | x :: rest =>
      if p.reading = true then
        if p.queue.length < capacity then some { p with pending := rest, queue := p.queue ++ [x] }
          else none
      else some { p with pending := [] }

def receive (p : Pipe α) : Option (Pipe α) :=
  match p.reading, p.queue with
  | true, x :: rest => some { p with queue := rest, received := p.received ++ [x] }
  | _, _ => none

def drop (p : Pipe α) : Option (Pipe α) :=
  if p.reading = true then some { p with queue := [], reading := false } else none

/-- What `items`, emitted so far, have become: nothing is lost or doubled while
the reader is there, and what it has when it leaves came first. -/
def Carries (p : Pipe α) (items : List α) : Prop :=
  if p.reading = true then p.received ++ p.queue ++ p.pending = items else p.received <+: items

variable {p p' : Pipe α} {items : List α}

theorem send_eq_some {capacity : Nat} (h : p.send capacity = some p') :
    ∃ x rest, p.pending = x :: rest ∧
    (p.reading = true ∧ p.queue.length < capacity ∧
      p' = { p with pending := rest, queue := p.queue ++ [x] } ∨
      p.reading = false ∧ p' = { p with pending := [] }) := by
  unfold send at h
  split at h
  · cases h
  · next x rest hpending =>
      refine ⟨x, rest, hpending, ?_⟩
      split at h
      · next hreading =>
          split at h
          · next hroom =>
              cases h
              exact Or.inl ⟨hreading, hroom, rfl⟩
          · cases h
      · next hleft =>
          cases h
          exact Or.inr ⟨by simpa using hleft, rfl⟩

theorem receive_eq_some (h : p.receive = some p') :
    p.reading = true ∧ ∃ x rest, p.queue = x :: rest ∧
    p' = { p with queue := rest, received := p.received ++ [x] } := by
  unfold receive at h
  split at h
  · next x rest hreading hqueue =>
      cases h
      exact ⟨hreading, x, rest, hqueue, rfl⟩
  · cases h

theorem drop_eq_some (h : p.drop = some p') :
    p.reading = true ∧ p' = { p with queue := [], reading := false } := by
  unfold drop at h
  split at h
  · next hreading =>
      cases h
      exact ⟨hreading, rfl⟩
  · cases h

theorem Carries.of_reading (h : p.Carries items) (hreading : p.reading = true) :
    p.received ++ p.queue ++ p.pending = items := by
  rwa [Carries, if_pos hreading] at h

theorem Carries.received_prefix (h : p.Carries items) : p.received <+: items := by
  unfold Carries at h
  split at h
  · exact ⟨p.queue ++ p.pending, by rw [← List.append_assoc, h]⟩
  · exact h

theorem Carries.empty : (Pipe.empty : Pipe α).Carries [] := rfl

theorem Carries.emit (h : p.Carries items) (more : List α) :
    (p.emit more).Carries (items ++ more) := by
  unfold Carries at h ⊢
  split at h
  · next hreading =>
      rw [if_pos (by exact hreading), ← h]
      simp [Pipe.emit]
  · next hleft =>
      rw [if_neg (by exact hleft)]
      exact h.trans (List.prefix_append _ _)

theorem Carries.send {capacity : Nat} (h : p.Carries items) (hstep : p.send capacity = some p') :
    p'.Carries items := by
  obtain ⟨x, rest, hpending, ⟨hreading, _, rfl⟩ | ⟨hleft, rfl⟩⟩ := send_eq_some hstep
  · have hall := h.of_reading hreading
    rw [hpending] at hall
    rw [Carries, if_pos (by exact hreading), ← hall]
    simp
  · rw [Carries, if_neg (by simp [hleft])] at h ⊢
    exact h

theorem Carries.receive (h : p.Carries items) (hstep : p.receive = some p') : p'.Carries items := by
  obtain ⟨hreading, x, rest, hqueue, rfl⟩ := receive_eq_some hstep
  have hall := h.of_reading hreading
  rw [hqueue] at hall
  rw [Carries, if_pos (by exact hreading), ← hall]
  simp

theorem Carries.drop (h : p.Carries items) (hstep : p.drop = some p') : p'.Carries items := by
  obtain ⟨_, rfl⟩ := drop_eq_some hstep
  rw [Carries, if_neg (by simp)]
  exact h.received_prefix

/-- A task that cannot send has sent all, or waits for the reader to make room. -/
theorem send_eq_none {capacity : Nat} (h : p.send capacity = none) :
    p.pending = [] ∨ p.reading = true ∧ capacity ≤ p.queue.length := by
  unfold send at h
  split at h
  · next hpending => exact Or.inl hpending
  · split at h
    · next hreading =>
        split at h
        · cases h
        · next hfull => exact Or.inr ⟨hreading, Nat.not_lt.mp hfull⟩
    · cases h

theorem receive_eq_none (h : p.receive = none) (hreading : p.reading = true) : p.queue = [] := by
  unfold receive at h
  split at h
  · cases h
  · next hqueue =>
      cases hq : p.queue with
      | nil => rfl
      | cons x rest => exact absurd hq (hqueue x rest hreading)

theorem queue_length_send {capacity : Nat} (h : p.queue.length ≤ capacity)
    (hstep : p.send capacity = some p') : p'.queue.length ≤ capacity := by
  obtain ⟨x, rest, _, ⟨_, hroom, rfl⟩ | ⟨_, rfl⟩⟩ := send_eq_some hstep
  · rw [List.length_append]
    exact hroom
  · exact h

theorem queue_length_receive {capacity : Nat} (h : p.queue.length ≤ capacity)
    (hstep : p.receive = some p') : p'.queue.length ≤ capacity := by
  obtain ⟨_, x, rest, hqueue, rfl⟩ := receive_eq_some hstep
  rw [hqueue, List.length_cons] at h
  exact Nat.le_of_succ_le h

theorem send_reading {capacity : Nat} (hstep : p.send capacity = some p') :
    p'.reading = p.reading := by
  obtain ⟨_, _, _, ⟨_, _, rfl⟩ | ⟨_, rfl⟩⟩ := send_eq_some hstep <;> rfl

end Pipe

end ImpossibleVoice.Lib
