import ImpossibleVoice.Lib.Runs

namespace ImpossibleVoice.Lib

structure System (σ π : Type) where
  shared : σ
  processes : List π

inductive Label (μ ε : Type)
  | environment (move : μ)
  | arrive
  | process (i : Nat) (event : ε)
deriving DecidableEq

/-- A process takes a step by itself, and can leave others behind. -/
structure Program (σ π μ ε : Type) where
  fresh : π
  environment : μ → σ → Option σ
  advance : ε → σ → π → Option (σ × π × List π)

variable {σ π μ ε : Type}

def Program.step (P : Program σ π μ ε) (label : Label μ ε) (s : System σ π) : Option (System σ π) :=
  match label with
  | .environment move => (P.environment move s.shared).map fun shared => { s with shared }
  | .arrive => some { s with processes := s.processes ++ [P.fresh] }
  | .process i event =>
      s.processes[i]?.bind fun p =>
        (P.advance event s.shared p).map fun out => ⟨out.1, s.processes.set i out.2.1 ++ out.2.2⟩

namespace Program

variable {P : Program σ π μ ε} {label : Label μ ε} {s t : System σ π}

theorem step_cases (h : P.step label s = some t) :
    (∃ move shared, label = .environment move ∧ P.environment move s.shared = some shared ∧
      t = ⟨shared, s.processes⟩) ∨ (label = .arrive ∧ t = ⟨s.shared, s.processes ++ [P.fresh]⟩) ∨
    (∃ i event p shared q left, label = .process i event ∧ s.processes[i]? = some p ∧
      P.advance event s.shared p = some (shared, q, left) ∧
      t = ⟨shared, s.processes.set i q ++ left⟩) := by
  cases label with
  | environment move =>
      obtain ⟨shared, hmove, rfl⟩ := Option.map_eq_some_iff.mp h
      exact Or.inl ⟨move, shared, rfl, hmove, rfl⟩
  | arrive =>
      cases h
      exact Or.inr (Or.inl ⟨rfl, rfl⟩)
  | process i event =>
      obtain ⟨p, hp, hout⟩ := Option.bind_eq_some_iff.mp h
      obtain ⟨⟨shared, q, left⟩, hadvance, rfl⟩ := Option.map_eq_some_iff.mp hout
      exact Or.inr (Or.inr ⟨i, event, p, shared, q, left, rfl, hp, hadvance, rfl⟩)

end Program

def total (held : π → Nat) : List π → Nat
  | [] => 0
  | p :: processes => held p + total held processes

variable {held : π → Nat}

theorem total_append (front back : List π) :
    total held (front ++ back) = total held front + total held back := by
  induction front with
  | nil => exact (Nat.zero_add _).symm
  | cons p front ih =>
      simp only [List.cons_append, total, ih]
      exact (Nat.add_assoc _ _ _).symm

theorem total_set (held : π → Nat) {processes : List π} {i : Nat} {p : π}
    (h : processes[i]? = some p) (q : π) :
    total held (processes.set i q) + held p = total held processes + held q := by
  induction processes generalizing i with
  | nil => cases h
  | cons head processes ih =>
      cases i with
      | zero =>
          cases h
          simp only [List.set_cons_zero, total]
          omega
      | succ i =>
          have htail := ih (by simpa using h)
          simp only [List.set_cons_succ, total]
          omega

theorem held_le_total (held : π → Nat) {processes : List π} {p : π} (h : p ∈ processes) :
    held p ≤ total held processes := by
  induction h with
  | head => exact Nat.le_add_right _ _
  | tail _ _ ih => exact Nat.le_trans ih (Nat.le_add_left _ _)

theorem total_eq_zero {processes : List π} (h : ∀ p ∈ processes, held p = 0) :
    total held processes = 0 := by
  induction processes with
  | nil => rfl
  | cons p processes ih =>
      rw [total, h p List.mem_cons_self, ih fun q hq => h q (List.mem_cons_of_mem p hq)]

theorem total_le {other : π → Nat} {processes : List π} (h : ∀ p ∈ processes, held p ≤ other p) :
    total held processes ≤ total other processes := by
  induction processes with
  | nil => exact Nat.le_refl 0
  | cons p processes ih =>
      exact Nat.add_le_add (h p List.mem_cons_self) (ih fun q hq => h q (List.mem_cons_of_mem p hq))

/-- Steps that take from the stock what the process gains, and give back what
it loses; `owed` counts what the stock has given out in all. -/
structure Balanced (P : Program σ π μ ε) (stock owed : σ → Nat) (held : π → Nat) : Prop where
  fresh : held P.fresh = 0
  environment : ∀ move s t, P.environment move s = some t → stock t + owed s = stock s + owed t
  advance : ∀ event s p t q left, P.advance event s p = some (t, q, left) →
    stock s + held p ≤ owed s →
    stock t + held q + total held left + owed s = stock s + held p + owed t

theorem Balanced.step {P : Program σ π μ ε} {stock owed : σ → Nat}
    (h : Balanced P stock owed held) {label : Label μ ε} {s t : System σ π}
    (hs : stock s.shared + total held s.processes = owed s.shared)
    (hstep : P.step label s = some t) :
    stock t.shared + total held t.processes = owed t.shared := by
  rcases Program.step_cases hstep with ⟨move, shared, _, hmove, rfl⟩ | ⟨_, rfl⟩ |
    ⟨i, event, p, shared, q, left, _, hp, hadvance, rfl⟩
  · have hkeep := h.environment _ _ _ hmove
    simp only
    omega
  · have hfresh := h.fresh
    simp only [total_append, total]
    omega
  · have hcovered := held_le_total held (List.mem_of_getElem? hp)
    have hkeep := h.advance _ _ _ _ _ _ hadvance (by omega)
    have hset := total_set held hp q
    simp only [total_append]
    omega

theorem Balanced.runs {P : Program σ π μ ε} {stock owed : σ → Nat}
    (h : Balanced P stock owed held) (start : System σ π) {s : System σ π}
    {labels : List (Label μ ε)}
    (hstart : stock start.shared + total held start.processes = owed start.shared)
    (hruns : Runs P.step start labels s) :
    stock s.shared + total held s.processes = owed s.shared :=
  Runs.invariant (P := fun _ s => stock s.shared + total held s.processes = owed s.shared) hstart
    (fun _ _ _ _ hs hstep => h.step hs hstep) hruns

/-- A property of the shared state that stays, and one of single processes that
stays under it and that whatever is left behind has. -/
structure Stable (P : Program σ π μ ε) (J : σ → Prop) (I : π → Prop) : Prop where
  fresh : I P.fresh
  environment : ∀ move s t, J s → P.environment move s = some t → J t
  advance : ∀ event s p t q left, J s → P.advance event s p = some (t, q, left) →
    J t ∧ (I p → I q) ∧ ∀ r ∈ left, I r

theorem Stable.runs {P : Program σ π μ ε} {J : σ → Prop} {I : π → Prop} (h : Stable P J I)
    {start s : System σ π} {labels : List (Label μ ε)} (hstart : J start.shared)
    (hruns : Runs P.step start labels s) {i : Nat} (hi : ∀ p, start.processes[i]? = some p → I p) :
    J s.shared ∧ ∀ p, s.processes[i]? = some p → I p := by
  refine Runs.invariant (P := fun _ s => J s.shared ∧ ∀ p, s.processes[i]? = some p → I p)
    ⟨hstart, hi⟩ ?_ hruns
  rintro _ s label t ⟨hJ, hI⟩ hstep
  rcases Program.step_cases hstep with ⟨move, shared, _, hmove, rfl⟩ | ⟨_, rfl⟩ |
    ⟨j, event, p, shared, q, left, _, hp, hadvance, rfl⟩
  · exact ⟨h.environment _ _ _ hJ hmove, hI⟩
  · refine ⟨hJ, fun p hp => ?_⟩
    rw [List.getElem?_append] at hp
    split at hp
    · exact hI p hp
    · rw [List.mem_singleton.mp (List.mem_of_getElem? hp)]
      exact h.fresh
  · obtain ⟨hJ, hq, hleft⟩ := h.advance _ _ _ _ _ _ hJ hadvance
    refine ⟨hJ, fun r hr => ?_⟩
    rw [List.getElem?_append] at hr
    split at hr
    · by_cases hij : j = i
      · subst hij
        rw [List.getElem?_set_self' , hp] at hr
        cases hr
        exact hq (hI p hp)
      · rw [List.getElem?_set_ne hij] at hr
        exact hI r hr
    · exact hleft r (List.mem_of_getElem? hr)

/-- A property of the shared state that stays, and one of each process that no
step of another one takes away. -/
structure Steady (P : Program σ π μ ε) (J : σ → Prop) (I : σ → π → Prop) : Prop where
  fresh : ∀ s, I s P.fresh
  environment : ∀ move s t, J s → P.environment move s = some t → J t ∧ ∀ p, I s p → I t p
  advance : ∀ event s p t q left, J s → I s p → P.advance event s p = some (t, q, left) →
    J t ∧ I t q ∧ (∀ r ∈ left, I t r) ∧ ∀ r, I s r → I t r

theorem Steady.step {P : Program σ π μ ε} {J : σ → Prop} {I : σ → π → Prop} (h : Steady P J I)
    {label : Label μ ε} {s t : System σ π} (hs : J s.shared ∧ ∀ p ∈ s.processes, I s.shared p)
    (hstep : P.step label s = some t) : J t.shared ∧ ∀ p ∈ t.processes, I t.shared p := by
  obtain ⟨hJ, hI⟩ := hs
  rcases Program.step_cases hstep with ⟨move, shared, _, hmove, rfl⟩ | ⟨_, rfl⟩ |
    ⟨j, event, p, shared, q, left, _, hp, hadvance, rfl⟩
  · obtain ⟨hJ', hkeep⟩ := h.environment _ _ _ hJ hmove
    exact ⟨hJ', fun p hp => hkeep p (hI p hp)⟩
  · refine ⟨hJ, fun p hp => ?_⟩
    rcases List.mem_append.mp hp with hp | hp
    · exact hI p hp
    · rw [List.mem_singleton.mp hp]
      exact h.fresh _
  · obtain ⟨hJ', hq, hleft, hkeep⟩ :=
      h.advance _ _ _ _ _ _ hJ (hI p (List.mem_of_getElem? hp)) hadvance
    refine ⟨hJ', fun r hr => ?_⟩
    rcases List.mem_append.mp hr with hr | hr
    · rcases List.mem_or_eq_of_mem_set hr with hr | rfl
      · exact hkeep r (hI r hr)
      · exact hq
    · exact hleft r hr

theorem Steady.runs {P : Program σ π μ ε} {J : σ → Prop} {I : σ → π → Prop} (h : Steady P J I)
    {start s : System σ π} {labels : List (Label μ ε)}
    (hstart : J start.shared ∧ ∀ p ∈ start.processes, I start.shared p)
    (hruns : Runs P.step start labels s) : J s.shared ∧ ∀ p ∈ s.processes, I s.shared p :=
  Runs.invariant (P := fun _ s => J s.shared ∧ ∀ p ∈ s.processes, I s.shared p) hstart
    (fun _ _ _ _ hs hstep => h.step hs hstep) hruns

end ImpossibleVoice.Lib
