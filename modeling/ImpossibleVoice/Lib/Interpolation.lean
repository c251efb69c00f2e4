import Mathlib.Algebra.Order.Field.Basic
import Mathlib.Data.List.GetD
import Mathlib.Tactic.Linarith
import Mathlib.Tactic.Ring
import Mathlib.Tactic.FieldSimp

namespace ImpossibleVoice.Lib

variable {F : Type} [Field F] [LinearOrder F] [IsStrictOrderedRing F]

def gridLength (s t n : Nat) : Nat := if n = 0 then 0 else (n - 1) * t / s + 1

def gridLeft (s t i : Nat) : Nat := i * s / t

def interpolate (xs : List F) (s t last i : Nat) : F :=
  xs.getD (gridLeft s t i) 0 +
    (xs.getD (min (gridLeft s t i + 1) last) 0 - xs.getD (gridLeft s t i) 0) *
      ((i * s % t : Nat) / (t : Nat) : F)

def resampled (s t : Nat) (xs : List F) : List F :=
  (List.range (gridLength s t xs.length)).map (interpolate xs s t (xs.length - 1))

variable {s t : Nat}

theorem gridLength_mono {n m : Nat} (h : n ≤ m) : gridLength s t n ≤ gridLength s t m := by
  unfold gridLength
  split
  · exact Nat.zero_le _
  · rw [if_neg (by omega)]
    exact Nat.add_le_add_right (Nat.div_le_div_right (Nat.mul_le_mul_right t (by omega))) 1

theorem gridLength_eq_zero {n : Nat} : gridLength s t n = 0 ↔ n = 0 := by
  unfold gridLength
  split <;> simp_all

theorem gridLength_self (hs : 0 < s) (n : Nat) : gridLength s s n = n := by
  unfold gridLength
  split
  · omega
  · rw [Nat.mul_div_cancel _ hs]
    omega

theorem grid_position_le (hs : 0 < s) {n i : Nat} (h : i < gridLength s t n) :
    i * s ≤ (n - 1) * t := by
  unfold gridLength at h
  split at h
  · exact absurd h (Nat.not_lt_zero i)
  · exact (Nat.le_div_iff_mul_le hs).mp (Nat.lt_succ_iff.mp h)

theorem gridLeft_le (hs : 0 < s) {n i : Nat} (h : i < gridLength s t n) : gridLeft s t i ≤ n - 1 :=
  Nat.div_le_of_le_mul (by rw [Nat.mul_comm t]; exact grid_position_le hs h)

theorem gridLeft_lt (hs : 0 < s) {n i : Nat} (h : i < gridLength s t n) : gridLeft s t i < n := by
  have hn : n ≠ 0 := fun h0 => by rw [gridLength_eq_zero.mpr h0] at h; exact Nat.not_lt_zero i h
  have := gridLeft_le hs h
  omega

/-- A grid point that sits on the last index has no fractional part. -/
theorem grid_remainder_eq_zero (hs : 0 < s) (ht : 0 < t) {n i : Nat} (h : i < gridLength s t n)
    (hl : n - 1 ≤ gridLeft s t i) : i * s % t = 0 := by
  have hle := grid_position_le hs h
  have hge : (n - 1) * t ≤ i * s := (Nat.le_div_iff_mul_le ht).mp hl
  rw [Nat.le_antisymm hle hge, Nat.mul_mod_left]

omit [LinearOrder F] [IsStrictOrderedRing F] in
/-- Knowing more of the list does not change a point already on the grid. -/
theorem interpolate_append (hs : 0 < s) (ht : 0 < t) (xs ys : List F) {i : Nat}
    (h : i < gridLength s t xs.length) :
    interpolate (xs ++ ys) s t ((xs ++ ys).length - 1) i =
      interpolate xs s t (xs.length - 1) i := by
  have hleft := gridLeft_lt hs h
  have hget : (xs ++ ys).getD (gridLeft s t i) 0 = xs.getD (gridLeft s t i) 0 := by
    rw [List.getD_append _ _ _ _ hleft]
  unfold interpolate
  rw [hget]
  by_cases hl : xs.length - 1 ≤ gridLeft s t i
  · rw [grid_remainder_eq_zero hs ht h hl]
    simp
  · have hx : min (gridLeft s t i + 1) (xs.length - 1) = gridLeft s t i + 1 := by omega
    have hxy : min (gridLeft s t i + 1) ((xs ++ ys).length - 1) = gridLeft s t i + 1 := by
      rw [List.length_append]; omega
    rw [hx, hxy, List.getD_append _ _ _ _ (by omega)]

omit [LinearOrder F] [IsStrictOrderedRing F] in
theorem resampled_append (hs : 0 < s) (ht : 0 < t) (xs ys : List F) :
    resampled s t (xs ++ ys) =
      resampled s t xs ++
      (List.range' (gridLength s t xs.length)
      (gridLength s t (xs ++ ys).length - gridLength s t xs.length)).map
      (interpolate (xs ++ ys) s t ((xs ++ ys).length - 1)) := by
  have hle : gridLength s t xs.length ≤ gridLength s t (xs ++ ys).length :=
    gridLength_mono (by rw [List.length_append]; omega)
  have hsplit : List.range (gridLength s t (xs ++ ys).length) =
      List.range (gridLength s t xs.length) ++
        List.range' (gridLength s t xs.length)
          (gridLength s t (xs ++ ys).length - gridLength s t xs.length) := by
    have h := List.range'_append_1 (s := 0) (m := gridLength s t xs.length)
      (n := gridLength s t (xs ++ ys).length - gridLength s t xs.length)
    rw [Nat.zero_add, Nat.add_sub_cancel' hle] at h
    rw [List.range_eq_range', List.range_eq_range', h]
  rw [resampled, hsplit, List.map_append, resampled]
  congr 1
  apply List.map_congr_left
  intro i hi
  exact interpolate_append hs ht xs ys (List.mem_range.mp hi)

omit [LinearOrder F] [IsStrictOrderedRing F] in
theorem resampled_length (xs : List F) : (resampled s t xs).length = gridLength s t xs.length := by
  rw [resampled, List.length_map, List.length_range]

omit [LinearOrder F] [IsStrictOrderedRing F] in
theorem resampled_nil : resampled s t ([] : List F) = [] := rfl

omit [LinearOrder F] [IsStrictOrderedRing F] in
theorem resampled_self (hs : 0 < s) (xs : List F) : resampled s s xs = xs := by
  apply List.ext_getElem
  · rw [resampled_length, gridLength_self hs]
  · intro i hi hx
    simp [resampled, interpolate, gridLeft, Nat.mul_div_cancel i hs, List.getElem?_eq_getElem hx]

theorem interpolate_mem_Icc (ht : 0 < t) {xs : List F} {low high : F}
    (hx : ∀ x ∈ xs, low ≤ x ∧ x ≤ high) {i : Nat} (hleft : gridLeft s t i < xs.length) :
    low ≤ interpolate xs s t (xs.length - 1) i ∧ interpolate xs s t (xs.length - 1) i ≤ high := by
  have hget (j : Nat) (hj : j < xs.length) : low ≤ xs.getD j 0 ∧ xs.getD j 0 ≤ high := by
    rw [List.getD_eq_getElem _ _ hj]
    exact hx _ (List.getElem_mem hj)
  obtain ⟨hal, hah⟩ := hget _ hleft
  obtain ⟨hbl, hbh⟩ := hget (min (gridLeft s t i + 1) (xs.length - 1)) (by omega)
  have htF : (0 : F) < (t : Nat) := by exact_mod_cast ht
  have hf0 : (0 : F) ≤ ((i * s % t : Nat) : F) / (t : Nat) := div_nonneg (Nat.cast_nonneg _) htF.le
  have hf1 : ((i * s % t : Nat) : F) / (t : Nat) ≤ 1 := by
    rw [div_le_one htF]
    exact_mod_cast (Nat.mod_lt _ ht).le
  unfold interpolate
  generalize ((i * s % t : Nat) : F) / (t : Nat) = f at hf0 hf1
  generalize xs.getD (gridLeft s t i) 0 = a at hal hah
  generalize xs.getD (min (gridLeft s t i + 1) (xs.length - 1)) 0 = b at hbl hbh
  constructor
  · nlinarith
      [mul_nonneg hf0 (sub_nonneg.mpr hbl), mul_nonneg (sub_nonneg.mpr hf1) (sub_nonneg.mpr hal)]
  · nlinarith
      [mul_nonneg hf0 (sub_nonneg.mpr hbh), mul_nonneg (sub_nonneg.mpr hf1) (sub_nonneg.mpr hah)]

theorem resampled_mem_Icc (hs : 0 < s) (ht : 0 < t) {xs : List F} {low high : F}
    (hx : ∀ x ∈ xs, low ≤ x ∧ x ≤ high) : ∀ y ∈ resampled s t xs, low ≤ y ∧ y ≤ high := by
  intro y hy
  obtain ⟨i, hi, rfl⟩ := List.mem_map.mp hy
  exact interpolate_mem_Icc ht hx (gridLeft_lt hs (List.mem_range.mp hi))

/-- `y` is the height at `p` of the polygon through the points `(k, xs[k])`. -/
structure OnPolygon (xs : List F) (p y : F) : Prop where
  first : 0 ≤ p
  last : p ≤ (xs.length - 1 : Nat)
  vertex : ∀ k (h : k < xs.length), p = k → y = xs[k]
  edge : ∀ k (h : k + 1 < xs.length), k ≤ p → p ≤ k + 1 → y = xs[k] + (xs[k + 1] - xs[k]) * (p - k)

theorem OnPolygon.between {xs : List F} {p y : F} (hy : OnPolygon xs p y) {k : Nat}
    (h : k + 1 < xs.length) (hl : k ≤ p) (hu : p ≤ k + 1) :
    min xs[k] xs[k + 1] ≤ y ∧ y ≤ max xs[k] xs[k + 1] := by
  rw [hy.edge k h hl hu]
  obtain hle | hle := le_total xs[k] xs[k + 1]
  · rw [min_eq_left hle, max_eq_right hle]
    constructor <;> nlinarith
  · rw [min_eq_right hle, max_eq_left hle]
    constructor <;> nlinarith

theorem grid_position_eq (ht : 0 < t) (i : Nat) :
    ((i : F) * s / t) = (gridLeft s t i : Nat) + ((i * s % t : Nat) / (t : Nat) : F) := by
  have htF : ((t : Nat) : F) ≠ 0 := by exact_mod_cast ht.ne'
  have hsplit : ((i * s : Nat) : F) = ((t * gridLeft s t i + i * s % t : Nat) : F) := by
    rw [gridLeft, Nat.div_add_mod]
  push_cast at hsplit ⊢
  rw [hsplit]
  field_simp

theorem interpolate_onPolygon (hs : 0 < s) (ht : 0 < t) {xs : List F} {i : Nat}
    (h : i < gridLength s t xs.length) :
    OnPolygon xs ((i : F) * s / t) (interpolate xs s t (xs.length - 1) i) := by
  have hleft := gridLeft_lt hs h
  have htF : (0 : F) < (t : Nat) := by exact_mod_cast ht
  have hposition := grid_position_eq (F := F) (s := s) ht i
  have hf0 : (0 : F) ≤ ((i * s % t : Nat) : F) / (t : Nat) := div_nonneg (Nat.cast_nonneg _) htF.le
  have hf1 : ((i * s % t : Nat) : F) / (t : Nat) < 1 := by
    rw [div_lt_one htF]
    exact_mod_cast Nat.mod_lt _ ht
  have hvertex (k : Nat) (hk : k < xs.length) (hp : (i : F) * s / t = k) :
      interpolate xs s t (xs.length - 1) i = xs[k] := by
    have hle : gridLeft s t i ≤ k := by
      exact_mod_cast (show ((gridLeft s t i : Nat) : F) ≤ k by linarith)
    have hge : k < gridLeft s t i + 1 := by
      exact_mod_cast (show (k : F) < ((gridLeft s t i + 1 : Nat) : F) by push_cast; linarith)
    obtain rfl : k = gridLeft s t i := by omega
    have hzero : ((i * s % t : Nat) : F) / (t : Nat) = 0 := by linarith
    rw [interpolate, hzero, mul_zero, add_zero, List.getD_eq_getElem _ _ hk]
  refine ⟨?_, ?_, hvertex, ?_⟩
  · rw [hposition]
    exact add_nonneg (Nat.cast_nonneg _) hf0
  · rw [div_le_iff₀ htF]
    exact_mod_cast grid_position_le hs h
  · intro k hk hl hu
    obtain heq | hlt := hu.eq_or_lt
    · rw [hvertex (k + 1) hk (by push_cast; exact heq), heq]
      ring
    · have hle : gridLeft s t i < k + 1 := by
        exact_mod_cast
          (show ((gridLeft s t i : Nat) : F) < ((k + 1 : Nat) : F) by push_cast; linarith)
      have hge : k < gridLeft s t i + 1 := by
        exact_mod_cast (show (k : F) < ((gridLeft s t i + 1 : Nat) : F) by push_cast; linarith)
      obtain rfl : k = gridLeft s t i := by omega
      rw [interpolate, show min (gridLeft s t i + 1) (xs.length - 1) = gridLeft s t i + 1 by omega,
        List.getD_eq_getElem _ _ hleft, List.getD_eq_getElem _ _ hk, hposition, add_sub_cancel_left]

theorem grid_end (hs : 0 < s) {n : Nat} (hn : n ≠ 0) :
    (gridLength s t n - 1) * s ≤ (n - 1) * t ∧ (n - 1) * t < gridLength s t n * s := by
  have hlength : gridLength s t n = (n - 1) * t / s + 1 := if_neg hn
  have hpos : 0 < gridLength s t n := by
    rw [hlength]
    exact Nat.succ_pos _
  refine ⟨grid_position_le hs (Nat.sub_lt hpos Nat.one_pos), ?_⟩
  rw [hlength, Nat.mul_comm _ s]
  exact Nat.lt_mul_div_succ _ hs

end ImpossibleVoice.Lib
