import Mathlib.Data.List.Basic
import Mathlib.Data.List.Range
import Mathlib.Data.List.Count

namespace ImpossibleVoice.Lib

variable {α β : Type}

inductive HandleOp (α β : Type)
  | acquire (n : Nat)
  | use (n : Nat) (x : α)
  | release (n : Nat) (result : β)

inductive Phase
  | ready (next : Nat)
  | holding (n : Nat)

namespace HandleOp

def handle : HandleOp α β → Nat
  | acquire n | use n _ | release n _ => n

def usesOf (i : Nat) : List (HandleOp α β) → List α
  | [] => []
  | use n x :: ops => if n = i then x :: usesOf i ops else usesOf i ops
  | _ :: ops => usesOf i ops

def uses : List (HandleOp α β) → List α
  | [] => []
  | use _ x :: ops => x :: uses ops
  | _ :: ops => uses ops

def acquired : List (HandleOp α β) → List Nat
  | [] => []
  | acquire n :: ops => n :: acquired ops
  | _ :: ops => acquired ops

def released : List (HandleOp α β) → List (Nat × β)
  | [] => []
  | release n result :: ops => (n, result) :: released ops
  | _ :: ops => released ops

theorem usesOf_append (i : Nat) (front back : List (HandleOp α β)) :
    usesOf i (front ++ back) = usesOf i front ++ usesOf i back := by
  induction front with
  | nil => rfl
  | cons op front ih =>
      cases op with
      | use n x =>
          simp only [List.cons_append, usesOf, ih]
          split <;> rfl
      | acquire | release => exact ih

theorem uses_append (front back : List (HandleOp α β)) :
    uses (front ++ back) = uses front ++ uses back := by
  induction front with
  | nil => rfl
  | cons op front ih =>
      cases op with
      | use n x => simp only [List.cons_append, uses, ih]
      | acquire | release => exact ih

theorem released_append (front back : List (HandleOp α β)) :
    released (front ++ back) = released front ++ released back := by
  induction front with
  | nil => rfl
  | cons op front ih =>
      cases op with
      | release n result => simp only [List.cons_append, released, ih]
      | acquire | use => exact ih

end HandleOp

namespace Phase

open HandleOp

def least : Phase → Nat
  | ready next => next
  | holding n => n

def bound : Phase → Nat
  | ready next => next
  | holding n => n + 1

@[simp] theorem least_ready (n : Nat) : (ready n).least = n := rfl

@[simp] theorem least_holding (n : Nat) : (holding n).least = n := rfl

@[simp] theorem bound_ready (n : Nat) : (ready n).bound = n := rfl

@[simp] theorem bound_holding (n : Nat) : (holding n).bound = n + 1 := rfl

theorem least_le_bound (p : Phase) : p.least ≤ p.bound := by
  cases p <;> simp

inductive Step : Phase → HandleOp α β → Phase → Prop
  | acquire (n : Nat) : Step (ready n) (.acquire n) (holding n)
  | use (n : Nat) (x : α) : Step (holding n) (.use n x) (holding n)
  | release (n : Nat) (result : β) : Step (holding n) (.release n result) (ready (n + 1))

inductive Run : Phase → List (HandleOp α β) → Phase → Prop
  | nil (p : Phase) : Run p [] p
  | cons {p q r : Phase} {op : HandleOp α β} {ops : List (HandleOp α β)} (hstep : Step p op q)
      (hrun : Run q ops r) :
      Run p (op :: ops) r

variable {p q r : Phase} {op : HandleOp α β} {ops front back : List (HandleOp α β)}

theorem Run.append (h : Run p front q) (h' : Run q back r) : Run p (front ++ back) r := by
  induction h with
  | nil => exact h'
  | cons hstep _ ih => exact Run.cons hstep (ih h')

theorem Run.split (h : Run p (front ++ back) r) : ∃ q, Run p front q ∧ Run q back r := by
  induction front generalizing p with
  | nil => exact ⟨p, Run.nil p, h⟩
  | cons op front ih =>
      cases h with
      | cons hstep hrun =>
          obtain ⟨q, hfront, hback⟩ := ih hrun
          exact ⟨q, Run.cons hstep hfront, hback⟩

theorem Step.least_le (h : Step p op q) :
    p.least ≤ q.least ∧ op.handle = p.least ∧ p.bound ≤ q.bound := by
  cases h <;> simp [HandleOp.handle]

theorem Run.least_le (h : Run p ops q) : p.least ≤ q.least ∧ p.bound ≤ q.bound := by
  induction h with
  | nil => exact ⟨le_rfl, le_rfl⟩
  | cons hstep _ ih => exact ⟨hstep.least_le.1.trans ih.1, hstep.least_le.2.2.trans ih.2⟩

/-- Handles below the least are never touched again. -/
theorem Run.least_le_handle (h : Run p ops q) : ∀ op ∈ ops, p.least ≤ op.handle := by
  induction h with
  | nil => exact fun _ hop => absurd hop List.not_mem_nil
  | cons hstep _ ih =>
      intro op hop
      rcases List.mem_cons.mp hop with rfl | hop
      · exact hstep.least_le.2.1.ge
      · exact hstep.least_le.1.trans (ih op hop)

theorem Run.handle_lt_bound (h : Run p ops q) : ∀ op ∈ ops, op.handle < q.bound := by
  induction h with
  | nil => exact fun _ hop => absurd hop List.not_mem_nil
  | cons hstep hrun ih =>
      intro op hop
      rcases List.mem_cons.mp hop with rfl | hop
      · have hbound := hrun.least_le.2
        cases hstep <;> simp only [HandleOp.handle, bound_holding, bound_ready] at hbound ⊢ <;>
          omega
      · exact ih op hop

/-- Nothing is done with a handle after its release. -/
theorem Run.no_use_after_release {i : Nat} {result : β}
    (h : Run p (front ++ .release i result :: back) q) : ∀ op ∈ back, op.handle ≠ i := by
  obtain ⟨r, _, hrest⟩ := h.split
  cases hrest with
  | cons hstep hback =>
      cases hstep
      intro op hop heq
      have hle : i + 1 ≤ op.handle := hback.least_le_handle op hop
      omega

theorem usesOf_eq_nil {i : Nat} (h : ∀ op ∈ ops, op.handle ≠ i) : usesOf i ops = [] := by
  induction ops with
  | nil => rfl
  | cons op ops ih =>
      have hrest := ih fun op hop => h op (List.mem_cons_of_mem _ hop)
      cases op with
      | use n x =>
          have hne : n ≠ i := h (.use n x) List.mem_cons_self
          rw [usesOf, if_neg hne, hrest]
      | acquire | release => exact hrest

theorem flatMap_usesOf_cons {n start len : Nat} (x : α) (h : n < start) :
    (List.range' start len).flatMap (fun i => usesOf i (.use n x :: ops)) =
      (List.range' start len).flatMap (fun i => usesOf i ops) := by
  refine List.flatMap_congr fun i hi => ?_
  have hle := (List.mem_range'_1.mp hi).1
  rw [usesOf, if_neg (by omega)]

/-- Handle by handle, the uses are in the order of the trace. -/
theorem Run.flatMap_usesOf (h : Run p ops q) :
    (List.range' p.least (q.bound - p.least)).flatMap (fun i => usesOf i ops) = uses ops := by
  induction h with
  | nil p => simp [usesOf, uses]
  | @cons p q r op ops hstep hrun ih =>
      obtain ⟨hleast, hbound⟩ := hrun.least_le
      cases hstep with
      | acquire n => exact ih
      | use n x =>
          simp only [least_holding, bound_holding] at ih hbound ⊢
          obtain ⟨len, hlen⟩ : ∃ len, r.bound - n = len + 1 := ⟨r.bound - n - 1, by omega⟩
          rw [hlen, List.range'_succ, List.flatMap_cons] at ih ⊢
          rw [flatMap_usesOf_cons x (Nat.lt_succ_self n), usesOf, if_pos rfl, List.cons_append, ih,
            uses]
      | release n result =>
          simp only [least_ready, least_holding] at ih hleast ⊢
          have hr := r.least_le_bound
          have hnone : usesOf n ops = [] := usesOf_eq_nil fun op hop heq => by
            have hle := hrun.least_le_handle op hop
            rw [least_ready] at hle
            omega
          obtain ⟨len, hlen⟩ : ∃ len, r.bound - n = len + 1 := ⟨r.bound - n - 1, by omega⟩
          rw [show r.bound - (n + 1) = len by omega] at ih
          rw [hlen, List.range'_succ, List.flatMap_cons]
          exact (congrArg (· ++ _) hnone).trans ih

theorem Run.acquired_eq (h : Run p ops q) :
    acquired ops = List.range' p.bound (q.bound - p.bound) := by
  induction h with
  | nil p => simp [acquired]
  | @cons p q r op ops hstep hrun ih =>
      have hle := hrun.least_le.2
      cases hstep with
      | acquire n =>
          simp only [bound_ready, bound_holding] at ih hle ⊢
          rw [acquired, ih, ← List.range'_succ]
          congr 1
          omega
      | use | release => exact ih

theorem Run.released_eq (h : Run p ops q) :
    (released ops).map Prod.fst = List.range' p.least (q.least - p.least) := by
  induction h with
  | nil p => simp [released]
  | @cons p q r op ops hstep hrun ih =>
      have hle := hrun.least_le.1
      cases hstep with
      | release n result =>
          simp only [least_ready, least_holding] at ih hle ⊢
          rw [released, List.map_cons, ih, ← List.range'_succ]
          congr 1
          omega
      | use | acquire => exact ih

end Phase

end ImpossibleVoice.Lib
