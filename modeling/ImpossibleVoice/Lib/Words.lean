import Mathlib

namespace ImpossibleVoice.Lib

variable {α : Type} {l m : Language α} {p q : α → Prop} {v w : List α}

def madeOf (p : α → Prop) : Language α := {w | ∀ a ∈ w, p a}

def word (w : List α) : Language α := {v | v = w}

theorem nil_mem_madeOf (p : α → Prop) : [] ∈ madeOf p := fun _ h => absurd h List.not_mem_nil

theorem mem_mul_madeOf (p : α → Prop) (h : w ∈ l) : w ∈ l * madeOf p :=
  Language.mem_mul.mpr ⟨w, h, [], nil_mem_madeOf p, List.append_nil w⟩

theorem append_mem_mul_word (h : w ∈ l) (v : List α) : w ++ v ∈ l * word v :=
  Language.append_mem_mul h rfl

theorem append_mem_mul_madeOf (h : w ∈ l * madeOf p) (hv : ∀ a ∈ v, p a) :
    w ++ v ∈ l * madeOf p := by
  obtain ⟨x, hx, y, hy, rfl⟩ := Language.mem_mul.mp h
  rw [List.append_assoc]
  refine Language.append_mem_mul hx fun a ha => ?_
  rcases List.mem_append.mp ha with ha | ha
  · exact hy a ha
  · exact hv a ha

theorem snoc_mem_mul_madeOf {a : α} (h : w ∈ l * madeOf p) (ha : p a) :
    w ++ [a] ∈ l * madeOf p := by
  apply append_mem_mul_madeOf h
  intro b hb
  rwa [List.mem_singleton.mp hb]

theorem snoc_mem_madeOf {a : α} (h : w ∈ madeOf p) (ha : p a) : w ++ [a] ∈ madeOf p := by
  rw [← one_mul (madeOf p)] at h ⊢
  exact snoc_mem_mul_madeOf h ha

theorem mul_le_madeOf (hl : l ≤ madeOf p) (hm : m ≤ madeOf p) : l * m ≤ madeOf p := by
  intro w h
  obtain ⟨x, hx, y, hy, rfl⟩ := Language.mem_mul.mp h
  intro a ha
  rcases List.mem_append.mp ha with ha | ha
  · exact hl hx a ha
  · exact hm hy a ha

theorem madeOf_mono (h : ∀ a, p a → q a) : madeOf p ≤ madeOf q := fun _ hw a ha => h a (hw a ha)

theorem word_le_madeOf (h : ∀ a ∈ w, p a) : word w ≤ madeOf p := by
  rintro v rfl
  exact h

theorem one_le_madeOf (p : α → Prop) : (1 : Language α) ≤ madeOf p := by
  rintro w rfl
  exact nil_mem_madeOf p

/-- The words in which the letter `a` never comes without one that satisfies `q`. -/
def needing (a : α) (q : α → Prop) : Language α := {w | a ∈ w → ∃ b ∈ w, q b}

theorem mul_le_needing {a : α} (hl : l ≤ needing a q) (hm : m ≤ needing a q) :
    l * m ≤ needing a q := by
  intro w h
  obtain ⟨x, hx, y, hy, rfl⟩ := Language.mem_mul.mp h
  intro ha
  rcases List.mem_append.mp ha with ha | ha
  · obtain ⟨b, hb, hq⟩ := hl hx ha
    exact ⟨b, List.mem_append_left y hb, hq⟩
  · obtain ⟨b, hb, hq⟩ := hm hy ha
    exact ⟨b, List.mem_append_right x hb, hq⟩

theorem madeOf_le_needing {a : α} (h : ¬ p a) (q : α → Prop) : madeOf p ≤ needing a q :=
  fun _ hw ha => absurd (hw a ha) h

theorem le_mul_one_add (l m : Language α) : l ≤ l * (1 + m) := by
  intro w h
  rw [mul_add, mul_one]
  exact Or.inl h

theorem mul_le_mul_one_add (l m : Language α) : l * m ≤ l * (1 + m) := by
  intro w h
  rw [mul_add, mul_one]
  exact Or.inr h

end ImpossibleVoice.Lib
