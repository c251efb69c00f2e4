import Mathlib.Data.List.Basic
import Mathlib.Tactic.Ring

namespace ImpossibleVoice.Lib

variable {α : Type}

/-- The complete blocks of `n + 1` elements at the front of a list. -/
def blocks (n : Nat) (xs : List α) : List (List α) :=
  if n + 1 ≤ xs.length then xs.take (n + 1) :: blocks n (xs.drop (n + 1)) else []
termination_by xs.length
decreasing_by simp only [List.length_drop]; omega

def remainder (n : Nat) (xs : List α) : List α := xs.drop (xs.length / (n + 1) * (n + 1))

theorem blocks_of_lt {n : Nat} {xs : List α} (h : xs.length < n + 1) : blocks n xs = [] := by
  rw [blocks, if_neg (by omega)]

theorem blocks_of_le {n : Nat} {xs : List α} (h : n + 1 ≤ xs.length) :
    blocks n xs = xs.take (n + 1) :: blocks n (xs.drop (n + 1)) := by
  rw [blocks, if_pos h]

theorem remainder_of_lt {n : Nat} {xs : List α} (h : xs.length < n + 1) : remainder n xs = xs := by
  rw [remainder, Nat.div_eq_of_lt h, Nat.zero_mul, List.drop_zero]

theorem remainder_of_le {n : Nat} {xs : List α} (h : n + 1 ≤ xs.length) :
    remainder n xs = remainder n (xs.drop (n + 1)) := by
  have hdiv : xs.length / (n + 1) = (xs.length - (n + 1)) / (n + 1) + 1 := by
    rw [← Nat.add_div_right _ (Nat.succ_pos n), Nat.sub_add_cancel h]
  rw [remainder, remainder, List.drop_drop, List.length_drop, hdiv, Nat.add_mul, Nat.one_mul,
    Nat.add_comm]

theorem remainder_length_lt (n : Nat) (xs : List α) : (remainder n xs).length < n + 1 := by
  have h := Nat.mod_lt xs.length (Nat.succ_pos n)
  rw [remainder, List.length_drop, ← Nat.mod_eq_sub_div_mul]
  exact h

theorem blocks_length_eq {n : Nat} {xs block : List α} (h : block ∈ blocks n xs) :
    block.length = n + 1 := by
  induction xs using blocks.induct n with
  | case1 xs hle ih =>
      rw [blocks_of_le hle] at h
      rcases List.mem_cons.mp h with rfl | h
      · rw [List.length_take, Nat.min_eq_left hle]
      · exact ih h
  | case2 xs hlt => rw [blocks_of_lt (Nat.not_le.mp hlt)] at h; exact absurd h List.not_mem_nil

theorem blocks_flatten_append (n : Nat) (xs : List α) :
    (blocks n xs).flatten ++ remainder n xs = xs := by
  induction xs using blocks.induct n with
  | case1 xs hle ih =>
      rw [blocks_of_le hle, remainder_of_le hle, List.flatten_cons, List.append_assoc, ih,
        List.take_append_drop]
  | case2 xs hlt =>
      rw [blocks_of_lt (Nat.not_le.mp hlt), remainder_of_lt (Nat.not_le.mp hlt)]
      rfl

theorem remainder_append (n : Nat) (xs ys : List α) :
    remainder n (xs ++ ys) = remainder n (remainder n xs ++ ys) := by
  induction xs using blocks.induct n with
  | case1 xs hle ih =>
      have happ : n + 1 ≤ (xs ++ ys).length := by rw [List.length_append]; omega
      rw [remainder_of_le happ, remainder_of_le hle, List.drop_append_of_le_length hle, ih]
  | case2 xs hlt => rw [remainder_of_lt (Nat.not_le.mp hlt)]

/-- Blocks of a longer list are the old ones, then those of what they left. -/
theorem blocks_append (n : Nat) (xs ys : List α) :
    blocks n (xs ++ ys) = blocks n xs ++ blocks n (remainder n xs ++ ys) := by
  induction xs using blocks.induct n with
  | case1 xs hle ih =>
      have happ : n + 1 ≤ (xs ++ ys).length := by rw [List.length_append]; omega
      rw [blocks_of_le happ, blocks_of_le hle, remainder_of_le hle,
        List.drop_append_of_le_length hle,
        List.take_append_of_le_length hle, ih, List.cons_append]
  | case2 xs hlt =>
      rw [blocks_of_lt (Nat.not_le.mp hlt), remainder_of_lt (Nat.not_le.mp hlt), List.nil_append]

def chunks (n : Nat) (xs : List α) : List (List α) :=
  blocks n xs ++ if remainder n xs = [] then [] else [remainder n xs]

theorem chunks_flatten (n : Nat) (xs : List α) : (chunks n xs).flatten = xs := by
  have hall := blocks_flatten_append n xs
  by_cases h : remainder n xs = []
  · rw [h, List.append_nil] at hall
    rw [chunks, if_pos h, List.append_nil, hall]
  · rw [chunks, if_neg h, List.flatten_append, List.flatten_singleton, hall]

theorem chunks_ne_nil {n : Nat} {xs : List α} (h : xs ≠ []) : chunks n xs ≠ [] := by
  intro hnil
  apply h
  rw [← chunks_flatten n xs, hnil, List.flatten_nil]

theorem remainder_length (n : Nat) (xs : List α) :
    (remainder n xs).length = xs.length % (n + 1) := by
  rw [remainder, List.length_drop, ← Nat.mod_eq_sub_div_mul]

theorem blocks_length (n : Nat) (xs : List α) : (blocks n xs).length = xs.length / (n + 1) := by
  induction xs using blocks.induct n with
  | case1 xs hle ih =>
      rw [blocks_of_le hle, List.length_cons, ih, List.length_drop,
        ← Nat.add_div_right _ (Nat.succ_pos n), Nat.sub_add_cancel hle]
  | case2 xs hlt =>
      rw [blocks_of_lt (Nat.not_le.mp hlt), Nat.div_eq_of_lt (Nat.not_le.mp hlt), List.length_nil]

theorem mem_chunks {n : Nat} {xs piece : List α} (h : piece ∈ chunks n xs) :
    piece.length = n + 1 ∨ (piece ≠ [] ∧ piece = remainder n xs) := by
  rw [chunks] at h
  obtain h | h := List.mem_append.mp h
  · exact .inl (blocks_length_eq h)
  · split at h
    · exact absurd h List.not_mem_nil
    · obtain rfl := List.mem_singleton.mp h
      exact .inr ⟨‹_›, rfl⟩

theorem chunk_bounds {n : Nat} {xs piece : List α} (h : piece ∈ chunks n xs) :
    piece ≠ [] ∧ piece.length ≤ n + 1 := by
  obtain hfull | ⟨hne, rfl⟩ := mem_chunks h
  · exact ⟨List.ne_nil_of_length_eq_add_one hfull, hfull.le⟩
  · exact ⟨hne, (remainder_length_lt n xs).le⟩

/-- No piece splits a unit of `k` elements. -/
theorem chunk_dvd {n k : Nat} {xs piece : List α} (hn : k ∣ n + 1) (hxs : k ∣ xs.length)
    (h : piece ∈ chunks n xs) : k ∣ piece.length := by
  obtain hfull | ⟨-, rfl⟩ := mem_chunks h
  · rwa [hfull]
  · rw [remainder_length]
    exact (Nat.dvd_mod_iff hn).mpr hxs

/-- `div_ceil`. -/
def divCeil (a b : Nat) : Nat := a / b + if a % b = 0 then 0 else 1

theorem chunks_length (n : Nat) (xs : List α) :
    (chunks n xs).length = divCeil xs.length (n + 1) := by
  have hnil : remainder n xs = [] ↔ xs.length % (n + 1) = 0 := by
    rw [← remainder_length, List.length_eq_zero_iff]
  rw [chunks, List.length_append, blocks_length, divCeil]
  by_cases h : remainder n xs = []
  · rw [if_pos h, if_pos (hnil.mp h), List.length_nil]
  · rw [if_neg h, if_neg (fun hmod => h (hnil.mpr hmod)), List.length_singleton]

end ImpossibleVoice.Lib
