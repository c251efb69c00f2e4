import ImpossibleVoice.Lib.Interleaving

namespace ImpossibleVoice.Lib

variable {σ π μ ε : Type}

def Label.isOf (i : Nat) : Label μ ε → Bool
  | .process j _ => j == i
  | _ => false

def Descends (P : Program σ π μ ε) (rank : π → Nat) : Prop :=
  ∀ event s p t q left, P.advance event s p = some (t, q, left) → rank p ≠ 0 → rank q < rank p

/-- Somewhere on the way the process has been in one of the given places. -/
def Visits (P : Program σ π μ ε) (s : System σ π) (labels : List (Label μ ε)) (i : Nat)
    (I : π → Prop) : Prop :=
  ∃ front back u r, labels = front ++ back ∧ Runs P.step s front u ∧ u.processes[i]? = some r ∧ I r

variable {P : Program σ π μ ε} {rank : π → Nat} {s t : System σ π} {labels : List (Label μ ε)}
  {i : Nat} {p : π}

theorem Visits.snoc {I : π → Prop} (h : Visits P s labels i I) (label : Label μ ε) :
    Visits P s (labels ++ [label]) i I := by
  obtain ⟨front, back, u, r, rfl, hruns, hr, hI⟩ := h
  exact ⟨front, back ++ [label], u, r, List.append_assoc _ _ _, hruns, hr, hI⟩

theorem Visits.imp {I J : π → Prop} (h : Visits P s labels i I) (himp : ∀ r, I r → J r) :
    Visits P s labels i J := by
  obtain ⟨front, back, u, r, hlabels, hruns, hr, hI⟩ := h
  exact ⟨front, back, u, r, hlabels, hruns, hr, himp r hI⟩

theorem kept_append {processes left : List π} (h : processes[i]? = some p) :
    (processes ++ left)[i]? = some p := by
  rw [List.getElem?_append_left (List.getElem?_eq_some_iff.mp h).1, h]

theorem Program.step_process {label : Label μ ε} (h : P.step label s = some t)
    (hp : s.processes[i]? = some p) :
    ∃ q, t.processes[i]? = some q ∧
    ((label.isOf i = false ∧ q = p) ∨
      (label.isOf i = true ∧
      ∃ event shared left, P.advance event s.shared p = some (shared, q, left))) := by
  rcases Program.step_cases h with ⟨move, shared, rfl, -, rfl⟩ | ⟨rfl, rfl⟩ |
    ⟨j, event, r, shared, q, left, rfl, hr, hadvance, rfl⟩
  · exact ⟨p, hp, .inl ⟨rfl, rfl⟩⟩
  · exact ⟨p, kept_append hp, .inl ⟨rfl, rfl⟩⟩
  · by_cases hij : j = i
    · subst hij
      rw [hr] at hp
      cases hp
      refine ⟨q, ?_, .inr ⟨beq_self_eq_true j, event, shared, left, hadvance⟩⟩
      apply kept_append
      rw [List.getElem?_set_self', hr]
      rfl
    · refine ⟨p, ?_, .inl ⟨beq_eq_false_iff_ne.mpr hij, rfl⟩⟩
      apply kept_append
      rw [List.getElem?_set_ne hij, hp]

/-- As long as it is not at rest, a process pays for its steps with its rank. -/
theorem Descends.runs (h : Descends P rank) (hruns : Runs P.step s labels t)
    (hp : s.processes[i]? = some p) :
    ∃ q, t.processes[i]? = some q ∧
    (Visits P s labels i (fun r => rank r = 0) ∨
      rank q + labels.countP (Label.isOf i) ≤ rank p) := by
  induction hruns with
  | nil => exact ⟨p, hp, .inr (Nat.le_refl _)⟩
  | snoc hruns hstep ih =>
      obtain ⟨q, hq, hbefore⟩ := ih
      obtain ⟨r, hr, hown⟩ := Program.step_process hstep hq
      refine ⟨r, hr, ?_⟩
      obtain hvisits | hpaid := hbefore
      · exact .inl (hvisits.snoc _)
      · obtain ⟨hother, rfl⟩ | ⟨hself, event, shared, left, hadvance⟩ := hown
        · right
          simpa [List.countP_append, hother] using hpaid
        · by_cases hrest : rank q = 0
          · exact .inl ⟨_, _, _, q, rfl, hruns, hq, hrest⟩
          · right
            have hlt := h event _ q shared r left hadvance hrest
            simp only [List.countP_append, List.countP_singleton, hself]
            simp only [if_true]
            omega

end ImpossibleVoice.Lib
