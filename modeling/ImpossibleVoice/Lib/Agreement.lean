import ImpossibleVoice.Lib.Effect

namespace ImpossibleVoice.Lib

variable {ε ε' σ τ α β γ : Type}

def Alike (P : σ → Prop) (m n : EStateM ε σ α) (Q : α → σ → Prop) : Prop :=
  ∀ s, P s → m.run s = n.run s ∧ ∀ a t, m.run s = .ok a t → Q a t

namespace Alike

variable {P : σ → Prop} {m n : EStateM ε σ α} {Q : α → σ → Prop}

theorem run_eq (h : Alike P m n Q) {s : σ} (hs : P s) : m.run s = n.run s := (h s hs).1

theorem same (h : ∀ s a t, P s → m.run s = .ok a t → Q a t) : Alike P m m Q :=
  fun s hs => ⟨rfl, fun a t => h s a t hs⟩

theorem bind {f g : α → EStateM ε σ β} {R : β → σ → Prop} (hm : Alike P m n Q)
    (hf : ∀ a, Alike (Q a) (f a) (g a) R) : Alike P (m >>= f) (n >>= g) R := by
  intro s hs
  obtain ⟨heq, hpost⟩ := hm s hs
  rw [EStateM.run_bind, EStateM.run_bind, ← heq]
  cases hr : m.run s with
  | ok a t => exact hf a t (hpost a t hr)
  | error e t => exact ⟨rfl, fun b u h => by cases h⟩

theorem pure {a : α} (h : ∀ s, P s → Q a s) :
    Alike P (Pure.pure a : EStateM ε σ α) (Pure.pure a) Q := by
  apply same
  intro s b t hs hrun
  cases hrun
  exact h s hs

theorem gets (f : σ → α) : Alike P (gets f : EStateM ε σ α) (gets f) fun a s => P s ∧ a = f s := by
  apply same
  intro s a t hs hrun
  cases hrun
  exact ⟨hs, rfl⟩

theorem modify {f : σ → σ} {R : PUnit → σ → Prop} (h : ∀ s, P s → R ⟨⟩ (f s)) :
    Alike P (modify f : EStateM ε σ PUnit) (modify f) R := by
  apply same
  intro s a t hs hrun
  cases hrun
  exact h s hs

theorem failIf (p : Prop) [Decidable p] (e : ε) :
    Alike P (failIf p e) (failIf p e) fun _ s => P s ∧ ¬ p := by
  apply same
  intro s a t hs hrun
  obtain ⟨hp, rfl⟩ := run_failIf_eq_ok hrun
  exact ⟨hs, hp⟩

theorem fromExcept (r : Except ε α) :
    Alike P (fromExcept r) (fromExcept r) fun a s => P s ∧ r = .ok a := by
  apply same
  intro s a t hs hrun
  obtain ⟨hr, rfl⟩ := run_fromExcept_eq_ok hrun
  exact ⟨hs, hr⟩

theorem of_fact {c : Prop} (h : c → Alike P m n Q) : Alike (fun s => P s ∧ c) m n Q :=
  fun s hs => h hs.2 s hs.1

theorem conseq {P' : σ → Prop} {Q' : α → σ → Prop} (h : Alike P m n Q) (hP : ∀ s, P' s → P s)
    (hQ : ∀ a s, Q a s → Q' a s) : Alike P' m n Q' := by
  intro s hs
  obtain ⟨heq, hpost⟩ := h s (hP s hs)
  exact ⟨heq, fun a t hr => hQ a t (hpost a t hr)⟩

theorem zoom {read : σ → τ} {write : τ → σ → σ} {convert : ε' → ε} {m n : EStateM ε' τ α}
    {P' : τ → Prop} {Q' : α → τ → Prop} (h : Alike P' m n Q') (hP : ∀ s, P s → P' (read s))
    (hQ : ∀ s a t, P s → Q' a t → Q a (write t s)) :
    Alike P (zoom read write convert m) (zoom read write convert n) Q := by
  intro s hs
  obtain ⟨heq, hpost⟩ := h (read s) (hP s hs)
  refine ⟨by rw [run_zoom, run_zoom, heq], fun a u hr => ?_⟩
  obtain ⟨t, ht, rfl⟩ := run_zoom_eq_ok hr
  exact hQ s a t hs (hpost a t ht)

theorem ending {f : σ → σ} (h : Alike P m n fun a s => Q a (f s)) :
    Alike P (ending f m) (ending f n) Q := by
  intro s hs
  obtain ⟨heq, hpost⟩ := h s hs
  rw [run_ending, run_ending, ← heq]
  cases hr : m.run s with
  | ok a t =>
      refine ⟨rfl, fun b u h => ?_⟩
      cases h
      exact hpost a t hr
  | error e t => exact ⟨rfl, fun b u h => by cases h⟩

theorem endingOnError {f : σ → σ} (h : Alike P m n Q) :
    Alike P (endingOnError f m) (endingOnError f n) Q := by
  intro s hs
  obtain ⟨heq, hpost⟩ := h s hs
  rw [run_endingOnError, run_endingOnError, ← heq]
  cases hr : m.run s with
  | ok a t =>
      refine ⟨rfl, fun b u h => ?_⟩
      cases h
      exact hpost a t hr
  | error e t => exact ⟨rfl, fun b u h => by cases h⟩

theorem collect {f g : β → EStateM ε σ (List γ)} {xs : List β}
    (h : ∀ x ∈ xs, Alike P (f x) (g x) fun _ => P) :
    Alike P (collect f xs) (collect g xs) fun _ => P := by
  induction xs with
  | nil => exact pure fun _ hs => hs
  | cons x xs ih =>
      apply bind (h x List.mem_cons_self)
      intro ys
      apply bind (ih fun y hy => h y (List.mem_cons_of_mem x hy))
      intro zs
      exact pure fun _ hs => hs

end Alike

end ImpossibleVoice.Lib
