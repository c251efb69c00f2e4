import ImpossibleVoice.Audio.Pcm

namespace ImpossibleVoice.Audio

open Lib

theorem roundHalfAway_nonneg {x : ℚ} (h : 0 ≤ x) : 0 ≤ roundHalfAway x := by
  rw [roundHalfAway, if_pos h]
  apply Int.floor_nonneg.mpr
  linarith

theorem roundHalfAway_mono {x y : ℚ} (h : x ≤ y) : roundHalfAway x ≤ roundHalfAway y := by
  by_cases hx : 0 ≤ x
  · rw [roundHalfAway, roundHalfAway, if_pos hx, if_pos (hx.trans h)]
    apply Int.floor_le_floor
    linarith
  · have hflip : 0 ≤ ⌊-x + 1 / 2⌋ := by
      apply Int.floor_nonneg.mpr
      linarith [not_le.mp hx]
    by_cases hy : 0 ≤ y
    · have hnonneg := roundHalfAway_nonneg hy
      rw [roundHalfAway, if_neg hx]
      omega
    · rw [roundHalfAway, roundHalfAway, if_neg hx, if_neg hy]
      apply neg_le_neg
      apply Int.floor_le_floor
      linarith

/-- A half away from zero is still a nearest integer. -/
theorem roundHalfAway_error (x : ℚ) : |(roundHalfAway x : ℚ) - x| ≤ 1 / 2 := by
  have hnear (z : ℚ) : |(⌊z + 1 / 2⌋ : ℚ) - z| ≤ 1 / 2 := by
    have hle := Int.floor_le (z + 1 / 2)
    have hlt := Int.lt_floor_add_one (z + 1 / 2)
    rw [abs_le]
    constructor <;> linarith
  rw [roundHalfAway]
  split
  · exact hnear x
  · have hflip := hnear (-x)
    rw [abs_sub_comm] at hflip
    push_cast
    rw [show -(⌊-x + 1 / 2⌋ : ℚ) - x = -x - ⌊-x + 1 / 2⌋ by ring]
    exact hflip

/-- On the range of samples only the clip at the top is left of the two clamps. -/
theorem floatToI16_eq {x : ℚ} (hl : -1 ≤ x) (hu : x ≤ 1) :
    floatToI16 x = min (2 ^ 15 - 1) (roundHalfAway (x * 32768)) := by
  rw [floatToI16]
  split
  · rename_i hle
    obtain rfl : x = -1 := le_antisymm hle hl
    have hround := roundHalfAway_intCast (-32768)
    rw [show ((-32768 : Int) : ℚ) = -1 * 32768 by norm_num] at hround
    rw [hround]
    rfl
  · have hlow := roundHalfAway_mono (show ((-32768 : Int) : ℚ) ≤ x * 32768 by push_cast; linarith)
    rw [roundHalfAway_intCast] at hlow
    rw [clamp, clamp, max_eq_right hl, min_eq_right hu,
      max_eq_right (show -2 ^ 15 ≤ roundHalfAway (x * 32768) by omega)]

theorem floatToI16_bounds {x : ℚ} (hl : -1 ≤ x) (hu : x ≤ 1) :
    -2 ^ 15 ≤ floatToI16 x ∧ floatToI16 x < 2 ^ 15 := by
  have hlow := roundHalfAway_mono (show ((-32768 : Int) : ℚ) ≤ x * 32768 by push_cast; linarith)
  rw [roundHalfAway_intCast] at hlow
  rw [floatToI16_eq hl hu]
  omega

theorem floatToI16_mono {x y : ℚ} (hl : -1 ≤ x) (h : x ≤ y) (hu : y ≤ 1) :
    floatToI16 x ≤ floatToI16 y := by
  rw [floatToI16_eq hl (h.trans hu), floatToI16_eq (hl.trans h) hu]
  apply min_le_min_left
  apply roundHalfAway_mono
  linarith

/-- Above the last half step the clip loses up to one step, elsewhere rounding up to a half. -/
theorem floatToI16_error {x : ℚ} (hl : -1 ≤ x) (hu : x ≤ 1) :
    |(floatToI16 x : ℚ) / 32768 - x| ≤ if (32767.5 : ℚ) / 32768 < x then 1 / 32768
      else 1 / 65536 := by
  have herror := abs_le.mp (roundHalfAway_error (x * 32768))
  have hscale : (floatToI16 x : ℚ) / 32768 - x = ((floatToI16 x : ℚ) - x * 32768) / 32768 := by
    rw [sub_div, mul_div_cancel_right₀ _ (by norm_num)]
  rw [hscale, abs_div, abs_of_pos (show (0 : ℚ) < 32768 by norm_num), div_le_iff₀ (by norm_num),
    floatToI16_eq hl hu, abs_le]
  by_cases hr : roundHalfAway (x * 32768) ≤ 2 ^ 15 - 1
  · rw [min_eq_right hr]
    split <;> constructor <;> linarith
  · -- The only clipped number is 32768, so the sample is in the last half step.
    have hhigh : (32768 : ℚ) ≤ roundHalfAway (x * 32768) := by
      exact_mod_cast (show 32768 ≤ roundHalfAway (x * 32768) by omega)
    rw [min_eq_left (by omega)]
    push_cast
    split
    · constructor <;> linarith
    · rename_i hlow
      rw [not_lt, le_div_iff₀ (by norm_num)] at hlow
      constructor <;> linarith

theorem decodePcm16_encoded {k : Int} (hl : -2 ^ 15 ≤ k) (hu : k < 2 ^ 15) (rest : List UInt8) :
    decodePcm16 (toLe 2 (fromI16 k) ++ rest) = (k : ℚ) / 32768 :: decodePcm16 rest := by
  have hbytes : fromLe (toLe 2 (fromI16 k)) = fromI16 k := fromLe_toLe (fromI16_lt k)
  rw [toLe, toLe, toLe] at hbytes ⊢
  rw [List.cons_append, List.cons_append, List.nil_append, decodePcm16, decodeSample, hbytes,
    toI16_fromI16 hl hu]

theorem decode_encoded {samples : List ℚ} (h : ∀ x ∈ samples, -1 ≤ x ∧ x ≤ 1) :
    decodePcm16 (samples.flatMap fun s => toLe 2 (fromI16 (floatToI16 s))) =
      samples.map fun s => (floatToI16 s : ℚ) / 32768 := by
  induction samples with
  | nil => rfl
  | cons x samples ih =>
      obtain ⟨hl, hu⟩ := h x (by simp)
      obtain ⟨hlow, hhigh⟩ := floatToI16_bounds hl hu
      rw [List.flatMap_cons, decodePcm16_encoded hlow hhigh, List.map_cons,
        ih (fun y hy => h y (by simp [hy]))]

/-- Quantisation is a monotone projection with bounded error. -/
theorem quantisation_is_a_projection :
    (∀ x y : ℚ, -1 ≤ x → x ≤ y → y ≤ 1 → floatToI16 x ≤ floatToI16 y) ∧
    (∀ x : ℚ, -1 ≤ x → x ≤ 1 → ∃ y, decodePcm16 (toLe 2 (fromI16 (floatToI16 x))) = [y] ∧
      |y - x| ≤ if (32767.5 : ℚ) / 32768 < x then 1 / 32768 else 1 / 65536) ∧
    ∀ (m : MonoPcm) (limits : AudioLimits),
      limits.admitAudio m.toPcm16Le.length m.sampleRate m.samples.length = .ok () →
      ∃ out, MonoPcm.fromPcm16Le m.toPcm16Le m.sampleRate limits = .ok out ∧
        out.samples = m.samples.map (fun s => (floatToI16 s : ℚ) / 32768) ∧
          out.toPcm16Le = m.toPcm16Le := by
  refine ⟨fun x y => floatToI16_mono, fun x hl hu => ?_, fun m limits hadmits => ?_⟩
  · have hdecode := decode_encoded (show ∀ y ∈ [x], -1 ≤ y ∧ y ≤ 1 by simpa using ⟨hl, hu⟩)
    rw [List.flatMap_singleton] at hdecode
    exact ⟨_, hdecode, floatToI16_error hl hu⟩
  · have hlength := toPcm16Le_length m
    have hdecode : decodePcm16 m.toPcm16Le = _ := decode_encoded m.in_range
    have heven : m.toPcm16Le.length % 2 = 0 := by omega
    have hne : m.toPcm16Le ≠ [] := by
      intro hnil
      rw [hnil, List.length_nil] at hlength
      exact m.samples_ne_nil (List.length_eq_zero_iff.mp (by omega))
    rw [show m.samples.length =
      m.toPcm16Le.length / 2 by omega, AudioLimits.admitAudio_eq_ok] at hadmits
    have hdecoded : decodePcm16 m.toPcm16Le ≠ [] := fun h => hne ((decodePcm16_eq_nil heven).mp h)
    have haccepted :=
      MonoPcm.fromPcm16Le_eq_ok
        (m := ⟨m.sampleRate, decodePcm16 m.toPcm16Le, m.rate_supported, hdecoded,
      decodePcm16_in_range _⟩) |>.mpr ⟨m.rate_supported, hne, heven, hadmits, rfl, rfl⟩
    exact ⟨_, haccepted, hdecode, toPcm16Le_fromPcm16Le haccepted⟩

end ImpossibleVoice.Audio
