import Mathlib.Logic.Basic

namespace ImpossibleVoice.Lib

variable {ε ε' α β : Type}

def orFail (value : Option α) (e : ε) : Except ε α :=
  match value with
  | some a => .ok a
  | none => .error e

theorem mapError_eq_ok {f : ε' → ε} {r : Except ε' α} {a : α} :
    r.mapError f = .ok a ↔ r = .ok a := by
  cases r with
  | ok b =>
      constructor
      · intro h
        cases h
        rfl
      · intro h
        cases h
        rfl
  | error e =>
      constructor
      · intro h
        cases h
      · intro h
        cases h

def FailsAs (P : ε → Prop) (r : Except ε α) : Prop := ∀ e, r = .error e → P e

namespace FailsAs

variable {P : ε → Prop} {r : Except ε α}

theorem ok (a : α) : FailsAs P (.ok a) := fun _ h => by cases h

theorem error {e : ε} (h : P e) : FailsAs P (.error e : Except ε α) :=
  fun _ he => by cases he; exact h

theorem bind {f : α → Except ε β} (h : FailsAs P r) (hf : ∀ a, FailsAs P (f a)) :
    FailsAs P (r >>= f) := by
  cases r with
  | ok a => exact hf a
  | error e => exact error (h e rfl)

theorem ite {p : Prop} [Decidable p] {s : Except ε α} (hr : FailsAs P r) (hs : FailsAs P s) :
    FailsAs P (if p then r else s) := by
  split
  · exact hr
  · exact hs

theorem orFail {value : Option α} {e : ε} (h : P e) : FailsAs P (Lib.orFail value e) := by
  cases value with
  | none => exact error h
  | some a => exact ok a

theorem mapError {f : ε' → ε} {s : Except ε' α} (h : ∀ e, P (f e)) : FailsAs P (s.mapError f) := by
  cases s with
  | ok a => exact ok a
  | error e => exact error (h e)

theorem map {f : α → β} (h : FailsAs P r) : FailsAs P (r.map f) := by
  cases r with
  | ok a => exact ok (f a)
  | error e => exact error (h e rfl)

end FailsAs

end ImpossibleVoice.Lib
