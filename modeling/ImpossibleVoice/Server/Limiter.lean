import ImpossibleVoice.Lib.Conservation
import ImpossibleVoice.Lib.FetchUpdate
import ImpossibleVoice.Server.Capacity

namespace ImpossibleVoice.Server.Limiter

open Lib FetchUpdate

/-- The closure of `acquire`. -/
def increment (maximum active : Nat) : Option Nat :=
  if active < maximum then some (active + 1) else none

/-- The `fetch_sub` of a dropped permit, which wraps around. -/
def decrement (active : Nat) : Nat := if active = 0 then Capacity.usizeMax else active - 1

def limiter (maximum : Nat) : Program Nat (Updating Nat) Empty FetchUpdate.Event :=
  looping (increment maximum) decrement

def atomicLimiter (maximum : Nat) : Program Nat (Updating Nat) Empty FetchUpdate.Event :=
  stepping (increment maximum) decrement

def start : System Nat (Updating Nat) := ⟨0, []⟩

theorem capacity_acquire {E : Type} [DecidableEq E] (engines : Capacity.Engines E) (e : E)
    (active : Capacity.Active E) :
    Capacity.acquire engines e active =
      (increment (engines.maximum e) (active e)).map (Function.update active e) := by
  rw [Capacity.acquire, increment]
  split <;> rfl

def permits : Updating Nat → Nat
  | .updated _ => 1
  | _ => 0

variable {maximum active after : Nat} {event : FetchUpdate.Event} {place next : Updating Nat}
  {left : List (Updating Nat)}

inductive Step (maximum active : Nat) : Updating Nat → Nat → Updating Nat → Prop
  | take (h : active < maximum) : Step maximum active .loading (active + 1) (.updated active)
  | refuse (h : maximum ≤ active) : Step maximum active .loading active (.refused active)
  | drop (seen : Nat) : Step maximum active (.updated seen) (decrement active) .closed

theorem step_of_advance
    (h : (atomicLimiter maximum).advance event active place = some (after, next, left)) :
    left = [] ∧ Step maximum active place after next := by
  change atomic (increment maximum) decrement event active place = some (after, next, left) at h
  cases event with
  | close =>
      cases place with
      | updated seen =>
          cases h
          exact ⟨rfl, .drop seen⟩
      | _ => cases h
  | proceed spurious =>
      cases place with
      | loading =>
          simp only [atomic, increment] at h
          by_cases hfree : active < maximum
          · simp only [if_pos hfree] at h
            cases h
            exact ⟨rfl, .take hfree⟩
          · simp only [if_neg hfree] at h
            cases h
            exact ⟨rfl, .refuse (Nat.le_of_not_lt hfree)⟩
      | _ => cases h

theorem conserves (maximum : Nat) :
    Conserves (atomicLimiter maximum) (· ≤ maximum) (fun _ => True) (fun (_ : Unit) _ => 0)
      (fun _ active => active) (fun _ => permits) where
  fresh _ := rfl
  environment move := move.elim
  settled _ _ _ _ := trivial
  advance event s p t q left hle _ hcovers h := by
    obtain ⟨rfl, hstep⟩ := step_of_advance h
    cases hstep with
    | take hfree =>
        refine ⟨hfree, fun _ => ?_⟩
        simp only [permits, total]
        omega
    | refuse => exact ⟨hle, fun _ => rfl⟩
    | drop seen =>
        have hheld := hcovers ()
        simp only [permits] at hheld
        have hdrop : decrement s = s - 1 := if_neg (by omega)
        refine ⟨by omega, fun _ => ?_⟩
        simp only [permits, total]
        omega

/-- Permits and counter in step, and refusals at the full counter only. -/
structure Exact (maximum : Nat) (s : System Nat (Updating Nat)) : Prop where
  accounted :
    Accounted (· ≤ maximum) (fun (_ : Unit) _ => 0) (fun _ active => active) (fun _ => permits) s
  refused : ∀ seen, .refused seen ∈ s.processes → seen = maximum

theorem Exact.step {s t : System Nat (Updating Nat)} {label : Lib.Label Empty FetchUpdate.Event}
    (hs : Exact maximum s) (h : (atomicLimiter maximum).step label s = some t) :
    Exact maximum t := by
  refine ⟨(conserves maximum).step hs.accounted h, fun seen hseen => ?_⟩
  rcases Program.step_cases
    h with ⟨move, _⟩ | ⟨-, rfl⟩ | ⟨i, event, p, shared, q, left, -, -, hadvance, rfl⟩
  · exact move.elim
  · obtain hold | hnew := List.mem_append.mp hseen
    · exact hs.refused seen hold
    · cases List.mem_singleton.mp hnew
  · obtain ⟨rfl, hstep⟩ := step_of_advance hadvance
    rw [List.append_nil] at hseen
    obtain hold | rfl := List.mem_or_eq_of_mem_set hseen
    · exact hs.refused seen hold
    · cases hstep with
      | refuse hfull => exact Nat.le_antisymm hs.accounted.shared hfull

theorem exact_start (maximum : Nat) : Exact maximum start :=
  ⟨⟨Nat.zero_le _, fun _ => rfl⟩, fun _ h => absurd h List.not_mem_nil⟩

theorem permits_settled (maximum : Nat) (place : Updating Nat) :
    permits (settled (increment maximum) place) = permits place := by
  cases place with
  | comparing seen =>
      rw [settled]
      cases increment maximum seen <;> rfl
  | _ => rfl

theorem total_settled (maximum : Nat) (processes : List (Updating Nat)) :
    total permits (processes.map (settled (increment maximum))) = total permits processes := by
  induction processes with
  | nil => rfl
  | cons place processes ih => rw [List.map_cons, total, total, ih, permits_settled]

/-- However threads race in their loops, the limiter of an engine does what one atomic
step for each loop does, in the order of these steps, and the atomic steps are those of
the capacity model. The counter is the number of permits in use and stays within the
maximum, and a caller is told `Busy` only at the full counter. -/
theorem limiter_is_atomic {E : Type} [DecidableEq E] (engines : Capacity.Engines E) (e : E)
    (labels : List (Lib.Label Empty FetchUpdate.Event)) (s : System Nat (Updating Nat))
    (h : Runs (limiter (engines.maximum e)).step start labels s) :
    (∃ points, points.Sublist labels ∧
      Runs (atomicLimiter (engines.maximum e)).step start points
      (linearized (increment (engines.maximum e)) s)) ∧
    (∀ active,
      Capacity.acquire engines e active =
      (increment (engines.maximum e) (active e)).map (Function.update active e) ∧
      Capacity.release e active = Function.update active e (decrement (active e))) ∧
    total permits s.processes = s.shared ∧ s.shared ≤ engines.maximum e ∧
    ∀ seen, .refused seen ∈ s.processes → seen = engines.maximum e := by
  obtain ⟨points, hsub, hruns⟩ := runs_refine h
  have hexact : Exact (engines.maximum e) (linearized (increment (engines.maximum e)) s) :=
    Runs.invariant (P := fun _ s => Exact (engines.maximum e) s) (exact_start (engines.maximum e))
      (fun _ _ _ _ hs hstep => hs.step hstep) hruns
  have hbalance := hexact.accounted.balance ()
  refine ⟨⟨points, hsub, hruns⟩, fun active => ⟨capacity_acquire engines e active, rfl⟩, ?_,
    hexact.accounted.shared,
    fun seen hseen => ?_⟩
  · simp only [linearized, total_settled, Nat.zero_add] at hbalance
    exact hbalance
  · exact hexact.refused seen
      (List.mem_map_of_mem (f := settled (increment (engines.maximum e))) hseen)

def racing : List (Lib.Label Empty FetchUpdate.Event) :=
  [.arrive, .arrive, .process 0 (.proceed false), .process 1 (.proceed false),
    .process 0 (.proceed true),
    .process 1 (.proceed false), .process 0 (.proceed false), .process 0 (.proceed false)]

theorem one_of_two_is_busy :
    Runs (limiter 1).step start racing ⟨1, [.refused 1, .updated 0]⟩ ∧
    ∃ points, points.Sublist racing ∧
    Runs (atomicLimiter 1).step start points ⟨1, [.refused 1, .updated 0]⟩ := by
  have hruns : Runs (limiter 1).step start racing ⟨1, [.refused 1, .updated 0]⟩ :=
    runs_iff_run.mpr rfl
  exact ⟨hruns, (limiter_is_atomic Capacity.defaultEngines .tts racing _ hruns).1⟩

end ImpossibleVoice.Server.Limiter
