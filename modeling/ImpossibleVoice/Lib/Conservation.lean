import ImpossibleVoice.Lib.Interleaving

namespace ImpossibleVoice.Lib

variable {σ π μ ε κ : Type}

/-- `J` stays under every step; `D` follows from it once all tokens are
accounted for, and may be used by each step. -/
structure Conserves (P : Program σ π μ ε) (J D : σ → Prop) (stock owed : κ → σ → Nat)
    (held : κ → π → Nat) : Prop where
  fresh : ∀ k, held k P.fresh = 0
  environment : ∀ move s t, J s → P.environment move s = some t →
    J t ∧ ∀ k, stock k t + owed k s = stock k s + owed k t
  settled : ∀ s processes, J s → (∀ k, stock k s + total (held k) processes = owed k s) → D s
  advance : ∀ event s p t q left, J s → D s → (∀ k, stock k s + held k p ≤ owed k s) →
    P.advance event s p = some (t, q, left) →
    J t ∧
      ∀ k, stock k t + held k q + total (held k) left + owed k s = stock k s + held k p + owed k t

structure Accounted (J : σ → Prop) (stock owed : κ → σ → Nat) (held : κ → π → Nat)
    (s : System σ π) : Prop where
  shared : J s.shared
  balance : ∀ k, stock k s.shared + total (held k) s.processes = owed k s.shared

variable {P : Program σ π μ ε} {J D : σ → Prop} {stock owed : κ → σ → Nat} {held : κ → π → Nat}
  {s t : System σ π}

theorem Conserves.step (h : Conserves P J D stock owed held) {label : Label μ ε}
    (hs : Accounted J stock owed held s) (hstep : P.step label s = some t) :
    Accounted J stock owed held t := by
  rcases Program.step_cases hstep with ⟨move, shared, _, hmove, rfl⟩ | ⟨_, rfl⟩ |
    ⟨i, event, p, shared, q, left, _, hp, hadvance, rfl⟩
  · obtain ⟨hJ, hkeep⟩ := h.environment _ _ _ hs.shared hmove
    refine ⟨hJ, fun k => ?_⟩
    have hk := hkeep k
    have hbalance := hs.balance k
    simp only
    omega
  · refine ⟨hs.shared, fun k => ?_⟩
    have hfresh := h.fresh k
    have hbalance := hs.balance k
    simp only [total_append, total]
    omega
  · have hcovered (k : κ) : stock k s.shared + held k p ≤ owed k s.shared := by
      have hle := held_le_total (held k) (List.mem_of_getElem? hp)
      have hbalance := hs.balance k
      omega
    obtain ⟨hJ, hkeep⟩ :=
      h.advance _ _ _ _ _ _ hs.shared (h.settled _ _ hs.shared hs.balance) hcovered hadvance
    refine ⟨hJ, fun k => ?_⟩
    have hk := hkeep k
    have hbalance := hs.balance k
    have hset := total_set (held k) hp q
    have hle := held_le_total (held k) (List.mem_of_getElem? hp)
    simp only [total_append]
    omega

theorem Conserves.runs (h : Conserves P J D stock owed held) {start : System σ π}
    {labels : List (Label μ ε)} (hstart : Accounted J stock owed held start)
    (hruns : Runs P.step start labels s) : Accounted J stock owed held s :=
  Runs.invariant (P := fun _ s => Accounted J stock owed held s) hstart
    (fun _ _ _ _ hs hstep => h.step hs hstep) hruns

theorem held_two_le_total {held : π → Nat} {processes : List π} {i j : Nat} {p q : π}
    (hij : i ≠ j) (hp : processes[i]? = some p) (hq : processes[j]? = some q) :
    held p + held q ≤ total held processes := by
  induction processes generalizing i j with
  | nil => cases hp
  | cons first processes ih =>
      cases i with
      | zero =>
          cases hp
          cases j with
          | zero => exact absurd rfl hij
          | succ j =>
              exact Nat.add_le_add_left
                (held_le_total held (List.mem_of_getElem? (by simpa using hq))) _
      | succ i =>
          cases j with
          | zero =>
              cases hq
              rw [Nat.add_comm]
              exact Nat.add_le_add_left
                (held_le_total held (List.mem_of_getElem? (by simpa using hp))) _
          | succ j =>
              have hrest := ih (fun h => hij (congrArg _ h)) (by simpa using hp) (by simpa using hq)
              exact Nat.le_trans hrest (Nat.le_add_left _ _)

end ImpossibleVoice.Lib
