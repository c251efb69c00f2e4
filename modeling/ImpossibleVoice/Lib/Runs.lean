import Mathlib.Data.List.Induction

namespace ImpossibleVoice.Lib

variable {σ ι : Type}

inductive Runs (step : ι → σ → Option σ) (start : σ) : List ι → σ → Prop
  | nil : Runs step start [] start
  | snoc {labels : List ι} {s t : σ} {label : ι} (h : Runs step start labels s)
      (hstep : step label s = some t) :
      Runs step start (labels ++ [label]) t

theorem Runs.invariant {step : ι → σ → Option σ} {start : σ} {P : List ι → σ → Prop}
    (hstart : P [] start)
    (hstep : ∀ labels s label t, P labels s → step label s = some t → P (labels ++ [label]) t)
    {labels : List ι} {s : σ} (h : Runs step start labels s) : P labels s := by
  induction h with
  | nil => exact hstart
  | snoc _ ht ih => exact hstep _ _ _ _ ih ht

def run (step : ι → σ → Option σ) (start : σ) (labels : List ι) : Option σ :=
  labels.foldlM (fun s label => step label s) start

theorem run_append_singleton (step : ι → σ → Option σ) (start : σ) (labels : List ι) (label : ι) :
    run step start (labels ++ [label]) = (run step start labels).bind (step label) := by
  rw [run, List.foldlM_append]
  simp [run]

theorem runs_iff_run {step : ι → σ → Option σ} {start s : σ} {labels : List ι} :
    Runs step start labels s ↔ run step start labels = some s := by
  induction labels using List.reverseRec generalizing s with
  | nil =>
      constructor
      · intro h
        generalize hall : ([] : List ι) = all at h
        cases h with
        | nil => rfl
        | snoc => simp at hall
      · intro h
        cases h
        exact .nil
  | append_singleton labels label ih =>
      rw [run_append_singleton, Option.bind_eq_some_iff]
      constructor
      · intro h
        generalize hall : labels ++ [label] = all at h
        cases h with
        | nil => simp at hall
        | snoc h hstep =>
            obtain ⟨rfl, hlabel⟩ := List.append_inj' hall rfl
            cases hlabel
            exact ⟨_, ih.mp h, hstep⟩
      · rintro ⟨t, ht, hstep⟩
        exact .snoc (ih.mpr ht) hstep

end ImpossibleVoice.Lib
