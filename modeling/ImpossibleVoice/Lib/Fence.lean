import ImpossibleVoice.Lib.Effect

namespace ImpossibleVoice.Lib

/-- How many calls were made, the time, and when the last call returned. -/
structure Moment where
  calls : Nat
  time : Nat
  returned : Nat

variable {ε σ α : Type}

def OneWay (stop : Nat → Option ε) : Prop := ∀ t t', t ≤ t' → stop t' = none → stop t = none

/-- Calls made since `start` have returned. -/
def Timely (start now : Moment) : Prop := now.calls = start.calls ∨ now.returned ≤ now.time

/-- Calls made since `start` returned before the stop. -/
def Fenced (stop : Nat → Option ε) (start now : Moment) : Prop :=
  now.calls = start.calls ∨ stop now.returned = none

def StoppedBy (stop : Nat → Option ε) (e : ε) (now : Moment) : Prop :=
  ∃ looked, now.time = looked + 1 ∧ stop looked = some e

/-- What a fence gives a caller. `own` tells the errors that have another reason
than the signal. -/
structure Fences (stop : Nat → Option ε) (moment : σ → Moment) (own : ε → σ → Prop)
    (m : EStateM ε σ α) (s : σ) : Prop where
  before : stop (moment s).time ≠ none →
    ∃ e t, m.run s = .error e t ∧ (moment t).calls = (moment s).calls
  after : ∀ a t, m.run s = .ok a t → (moment t).calls ≠ (moment s).calls →
    stop (moment t).returned = none
  reason : ∀ e t, m.run s = .error e t → own e t ∨ StoppedBy stop e (moment t)

variable {stop : Nat → Option ε} {moment : σ → Moment} {own : ε → σ → Prop}

theorem Timely.refl (start : Moment) : Timely start start := .inl rfl

/-- Not stopped now, so not when the last call returned. -/
theorem Timely.fenced (hstop : OneWay stop) {start now : Moment} (h : Timely start now)
    (hgoes : stop now.time = none) : Fenced stop start now :=
  h.imp id fun hreturned => hstop _ _ hreturned hgoes

theorem Fences.of_triple {m : EStateM ε σ α} {s : σ}
    (hbefore : stop (moment s).time ≠ none →
      ∃ e t, m.run s = .error e t ∧ (moment t).calls = (moment s).calls)
    (h : Triple (fun t => Timely (moment s) (moment t)) m
      (fun _ t => Fenced stop (moment s) (moment t))
      fun e t => own e t ∨ StoppedBy stop e (moment t)) : Fences stop moment own m s where
  before := hbefore
  after := fun _ _ hrun hcalls => (h.ok (Timely.refl _) hrun).resolve_left hcalls
  reason := fun _ _ hrun => h.error (Timely.refl _) hrun

end ImpossibleVoice.Lib
