import Mathlib.Data.Nat.ModEq
import ImpossibleVoice.Lib.Interleaving

namespace ImpossibleVoice.Server.RequestIds

open Lib

/-- Where a call of `next` is, in the loop of its `fetch_update`. -/
inductive Next
  | loading
  | comparing (value : Nat)
  | issued (id : Nat)
  | exhausted
deriving DecidableEq

def checkedIncrement (value : Nat) : Option Nat :=
  if value + 1 < 2 ^ 64 then some (value + 1) else none

def advance (spurious : Bool) (counter : Nat) : Next → Option (Nat × Next × List Next)
  | .loading => some (counter, .comparing counter, [])
  | .comparing value =>
    match checkedIncrement value with
    | none => some (counter, .exhausted, [])
    | some next =>
      if spurious = false ∧ counter = value then some (next, .issued (value + 1), [])
        else some (counter, .comparing counter, [])
  | .issued _ | .exhausted => none

def source : Program Nat Next Empty Bool := ⟨.loading, fun move _ => move.elim, advance⟩

def start : System Nat Next := ⟨0, []⟩

inductive Step (counter : Nat) : Next → Nat → Next → Prop
  | load : Step counter .loading counter (.comparing counter)
  | exhaust (value : Nat) (h : 2 ^ 64 ≤ value + 1) :
      Step counter (.comparing value) counter .exhausted
  | issue (h : counter + 1 < 2 ^ 64) :
      Step counter (.comparing counter) (counter + 1) (.issued (counter + 1))
  | retry (value : Nat) : Step counter (.comparing value) counter (.comparing counter)

variable {counter after : Nat} {at' next : Next} {left : List Next}

theorem step_of_advance {spurious : Bool}
    (h : advance spurious counter at' = some (after, next, left)) :
    left = [] ∧ Step counter at' after next := by
  cases at' with
  | loading =>
      cases h
      exact ⟨rfl, .load⟩
  | comparing value =>
      simp only [advance, checkedIncrement] at h
      by_cases hfits : value + 1 < 2 ^ 64
      · simp only [if_pos hfits] at h
        by_cases hsame : spurious = false ∧ counter = value
        · obtain ⟨-, rfl⟩ := id hsame
          rw [if_pos hsame] at h
          cases h
          exact ⟨rfl, .issue hfits⟩
        · rw [if_neg hsame] at h
          cases h
          exact ⟨rfl, .retry value⟩
      · rw [if_neg hfits] at h
        cases h
        exact ⟨rfl, .exhaust value (Nat.le_of_not_lt hfits)⟩
  | issued => cases h
  | exhausted => cases h

def Next.count (id : Nat) : Next → Nat
  | issued other => if other = id then 1 else 0
  | _ => 0

def drawn (id counter : Nat) : Nat := if 0 < id ∧ id ≤ counter then 1 else 0

theorem drawn_succ (id counter : Nat) :
    drawn id (counter + 1) = drawn id counter + if counter + 1 = id then 1 else 0 := by
  unfold drawn
  split <;> split <;> split <;> omega

theorem balanced (id : Nat) : Balanced source (fun _ => 0) (drawn id) (Next.count id) where
  fresh := rfl
  environment move := move.elim
  advance spurious s p t q left h _ := by
    obtain ⟨rfl, hstep⟩ := step_of_advance h
    cases hstep with
    | issue =>
        simp only [drawn_succ, Next.count, total]
        omega
    | _ => rfl

def Next.Seen (counter : Nat) : Next → Prop
  | comparing value => value ≤ counter
  | exhausted => counter + 1 = 2 ^ 64
  | _ => True

theorem seen_mono (h : at'.Seen counter) (hle : counter ≤ after) (hafter : after < 2 ^ 64) :
    at'.Seen after := by
  cases at' with
  | comparing value => exact Nat.le_trans h hle
  | exhausted =>
      simp only [Next.Seen] at h ⊢
      omega
  | _ => trivial

theorem Step.seen (h : Step counter at' after next) (hcounter : counter < 2 ^ 64)
    (hseen : at'.Seen counter) : counter ≤ after ∧ after < 2 ^ 64 ∧ next.Seen after := by
  cases h with
  | load => exact ⟨Nat.le_refl _, hcounter, Nat.le_refl _⟩
  | exhaust value hfull =>
      refine ⟨Nat.le_refl _, hcounter, ?_⟩
      simp only [Next.Seen] at hseen ⊢
      omega
  | issue hfits => exact ⟨Nat.le_succ _, hfits, trivial⟩
  | retry => exact ⟨Nat.le_refl _, hcounter, Nat.le_refl _⟩

theorem steady : Steady source (· < 2 ^ 64) Next.Seen where
  fresh _ := trivial
  environment move := move.elim
  advance spurious s p t q left hs hp h := by
    obtain ⟨rfl, hstep⟩ := step_of_advance h
    obtain ⟨hle, hfits, hseen⟩ := hstep.seen hs hp
    exact ⟨hfits, hseen, fun _ hr => absurd hr List.not_mem_nil, fun r hr => seen_mono hr hle hfits⟩

/-- Whatever calls race for them, just the identifiers from one on have been
issued, each once; and a call fails only once all of 64 bits have been. -/
theorem ids_never_repeat (labels : List (Label Empty Bool)) (s : System Nat Next)
    (h : Runs source.step start labels s) :
    (∀ id, total (Next.count id) s.processes = drawn id s.shared) ∧ s.shared < 2 ^ 64 ∧
    (.exhausted ∈ s.processes → s.shared + 1 = 2 ^ 64) := by
  have hsteady := steady.runs ⟨Nat.two_pow_pos 64, fun _ hp => absurd hp List.not_mem_nil⟩ h
  refine ⟨fun id => ?_, hsteady.1, fun hexhausted => hsteady.2 _ hexhausted⟩
  have hstart : 0 + total (Next.count id) start.processes = drawn id start.shared := by
    refine (if_neg fun hid => ?_).symm
    exact absurd (Nat.lt_of_lt_of_le hid.1 hid.2) (Nat.lt_irrefl 0)
  have hbalance := (balanced id).runs start hstart h
  rwa [Nat.zero_add] at hbalance

def racing : List (Label Empty Bool) :=
  [.arrive, .arrive, .process 0 false, .process 1 false, .process 1 false, .process 0 false,
    .process 0 true, .process 0 false]

theorem racing_calls_draw_two_ids : Runs source.step start racing ⟨2, [.issued 2, .issued 1]⟩ ∧
    ∀ id, total (Next.count id) [.issued 2, .issued 1] = drawn id 2 := by
  have hruns : Runs source.step start racing ⟨2, [.issued 2, .issued 1]⟩ := runs_iff_run.mpr rfl
  exact ⟨hruns, (ids_never_repeat _ _ hruns).1⟩

end ImpossibleVoice.Server.RequestIds
