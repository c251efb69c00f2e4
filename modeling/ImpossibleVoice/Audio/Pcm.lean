import ImpossibleVoice.Audio.Limits
import Mathlib.Data.Rat.Floor
import Mathlib.Tactic.Linarith
import Mathlib.Tactic.NormNum

namespace ImpossibleVoice.Audio

open Lib

/-- A single-precision number as it arrives from outside, its finite values
read exactly. Once validated, samples are plain rationals. -/
inductive F32
  | finite (value : ℚ)
  | infinite (negative : Bool)
  | nan
deriving DecidableEq

namespace F32

def isFinite : F32 → Bool
  | finite _ => true
  | _ => false

/-- `(low..=high).contains`: no comparison holds of a NaN. -/
def within (low high : ℚ) : F32 → Bool
  | finite q => decide (low ≤ q ∧ q ≤ high)
  | _ => false

def value : F32 → ℚ
  | finite q => q
  | _ => 0

/-- The test that `MonoPcm::new` and the streaming resampler share. -/
def invalid (sample : F32) : Bool := !sample.isFinite || !sample.within (-1) 1

theorem invalid_eq_false {sample : F32} :
    sample.invalid = false ↔
      sample = finite sample.value ∧ -1 ≤ sample.value ∧ sample.value ≤ 1 := by
  cases sample <;> simp [invalid, isFinite, within, value]

theorem map_value_finite (samples : List ℚ) : (samples.map finite).map value = samples := by
  simp [Function.comp_def, value]

theorem any_invalid_finite {samples : List ℚ} (h : ∀ x ∈ samples, -1 ≤ x ∧ x ≤ 1) :
    (samples.map finite).any invalid = false := by
  simpa [List.any_eq_false, invalid, isFinite, within] using h

theorem value_in_range {samples : List F32} (h : samples.any invalid = false) :
    ∀ x ∈ samples.map value, -1 ≤ x ∧ x ≤ 1 := by
  intro x hx
  obtain ⟨s, hs, rfl⟩ := List.mem_map.mp hx
  exact (invalid_eq_false.mp (by simpa using List.any_eq_false.mp h s hs)).2

end F32

/-- Validated mono PCM. The constructor of the source is the only way in, so
its checks are fields. -/
@[ext] structure MonoPcm where
  sampleRate : Nat
  samples : List ℚ
  rate_supported : sampleRate ∈ supportedSampleRates
  samples_ne_nil : samples ≠ []
  in_range : ∀ x ∈ samples, -1 ≤ x ∧ x ≤ 1

namespace MonoPcm

def new (sampleRate : Nat) (samples : List F32) : Except AudioError MonoPcm :=
  if hr : validateRate sampleRate = .ok () then
    if he : samples = [] then .error ⟨"audio must contain samples"⟩
    else if hv : samples.any F32.invalid = false then
      .ok ⟨sampleRate, samples.map F32.value, validateRate_eq_ok hr, by simpa using he,
        F32.value_in_range hv⟩
    else .error ⟨"audio samples are invalid"⟩
  else .error ⟨"audio sample rate is unsupported"⟩

theorem new_eq_ok {rate : Nat} {samples : List F32} {m : MonoPcm} :
    new rate samples = .ok m ↔
      rate ∈ supportedSampleRates ∧ samples ≠ [] ∧ samples.any F32.invalid = false ∧
    m.sampleRate = rate ∧ m.samples = samples.map F32.value := by
  constructor
  · intro h
    unfold new at h
    split at h
    · rename_i hr
      split at h
      · exact absurd h (by simp)
      · split at h
        · cases h
          exact ⟨validateRate_eq_ok hr, ‹_›, ‹_›, rfl, rfl⟩
        · exact absurd h (by simp)
    · exact absurd h (by simp)
  · rintro ⟨hr, he, hv, hm, hs⟩
    rw [new, dif_pos (validateRate_ok hr), dif_neg he, dif_pos hv]
    congr 1
    exact MonoPcm.ext hm.symm hs.symm

theorem new_finite {rate : Nat} {samples : List ℚ} (hr : rate ∈ supportedSampleRates)
    (he : samples ≠ []) (hv : ∀ x ∈ samples, -1 ≤ x ∧ x ≤ 1) :
    new rate (samples.map .finite) = .ok ⟨rate, samples, hr, he, hv⟩ :=
  new_eq_ok.mpr
    ⟨hr, by simpa using he, F32.any_invalid_finite hv, rfl, (F32.map_value_finite samples).symm⟩

theorem new_finite_nil (rate : Nat) : ∃ e, new rate (([] : List ℚ).map .finite) = .error e := by
  cases h : new rate (([] : List ℚ).map .finite) with
  | error e => exact ⟨e, rfl⟩
  | ok m => exact absurd rfl (new_eq_ok.mp h).2.1

end MonoPcm

def AudioLimits.validatePcm (limits : AudioLimits) (audio : MonoPcm) : Except AudioError Unit := do
  let encodedBytes ← okOr (checkedMul 64 audio.samples.length 2)
      "encoded audio exceeds its byte limit"
  limits.admitAudio encodedBytes audio.sampleRate audio.samples.length

def decodeSample (low high : UInt8) : ℚ := (toI16 (fromLe [low, high]) : ℚ) / 32768

/-- `chunks_exact(2)`: a last odd byte is dropped. -/
def decodePcm16 : List UInt8 → List ℚ
  | low :: high :: rest => decodeSample low high :: decodePcm16 rest
  | [_] => []
  | [] => []

theorem fromLe_pair_lt (low high : UInt8) : fromLe [low, high] < 2 ^ 16 := by
  simpa using fromLe_lt [low, high]

theorem decodeSample_in_range (low high : UInt8) :
    -1 ≤ decodeSample low high ∧ decodeSample low high ≤ 1 := by
  obtain ⟨hl, hu⟩ := toI16_bounds (fromLe_pair_lt low high)
  have hl' : (-32768 : ℚ) ≤ (toI16 (fromLe [low, high]) : ℚ) := by exact_mod_cast hl
  have hu' : (toI16 (fromLe [low, high]) : ℚ) < 32768 := by exact_mod_cast hu
  unfold decodeSample
  constructor
  · rw [le_div_iff₀ (by norm_num)]; linarith
  · rw [div_le_iff₀ (by norm_num)]; linarith

theorem decodePcm16_in_range (bytes : List UInt8) : ∀ x ∈ decodePcm16 bytes, -1 ≤ x ∧ x ≤ 1 := by
  induction bytes using decodePcm16.induct with
  | case1 low high rest ih =>
      intro x hx
      rcases List.mem_cons.mp hx with rfl | hx
      · exact decodeSample_in_range low high
      · exact ih x hx
  | case2 | case3 => simp [decodePcm16]

theorem decodePcm16_length (bytes : List UInt8) :
    (decodePcm16 bytes).length = bytes.length / 2 := by
  induction bytes using decodePcm16.induct with
  | case1 low high rest ih => simp only [decodePcm16, List.length_cons, ih]; omega
  | case2 | case3 => simp [decodePcm16]

theorem decodePcm16_eq_nil {bytes : List UInt8} (h : bytes.length % 2 = 0) :
    decodePcm16 bytes = [] ↔ bytes = [] := by
  rw [← List.length_eq_zero_iff, ← List.length_eq_zero_iff, decodePcm16_length]
  omega

namespace MonoPcm

def fromPcm16Le (bytes : List UInt8) (sampleRate : Nat) (limits : AudioLimits) :
    Except AudioError MonoPcm := do
  validateRate sampleRate
  if bytes = [] ∨ bytes.length % 2 ≠ 0 then .error ⟨"PCM16 audio has an invalid byte length"⟩
  else do
    limits.admitAudio bytes.length sampleRate (bytes.length / 2)
    new sampleRate ((decodePcm16 bytes).map .finite)

/-- When raw PCM16 is accepted, and the recording it then is. -/
theorem fromPcm16Le_eq_ok {bytes : List UInt8} {rate : Nat} {limits : AudioLimits} {m : MonoPcm} :
    fromPcm16Le bytes rate limits = .ok m ↔
      rate ∈ supportedSampleRates ∧ bytes ≠ [] ∧ bytes.length % 2 = 0 ∧
        limits.Admits bytes.length rate (bytes.length / 2) ∧
        m.sampleRate = rate ∧ m.samples = decodePcm16 bytes := by
  unfold fromPcm16Le
  by_cases hr : rate ∈ supportedSampleRates
  · by_cases hb : bytes = [] ∨ bytes.length % 2 ≠ 0
    · simp only [validateRate_ok hr, bind, Except.bind, if_pos hb, reduceCtorEq, false_iff]
      rintro ⟨_, hn, he, _⟩
      exact hb.elim hn (fun ho => ho he)
    · obtain ⟨hn, he⟩ := not_or.mp hb
      simp only [validateRate_ok hr, bind, Except.bind, if_neg hb]
      by_cases ha : limits.Admits bytes.length rate (bytes.length / 2)
      · have hne : decodePcm16 bytes ≠ [] := fun h => hn ((decodePcm16_eq_nil (not_not.mp he)).mp h)
        simp only [AudioLimits.admitAudio_ok ha, new_finite hr hne (decodePcm16_in_range bytes),
          Except.ok.injEq]
        constructor
        · rintro rfl
          exact ⟨hr, hn, not_not.mp he, ha, rfl, rfl⟩
        · rintro ⟨_, _, _, _, hm, hs⟩
          exact MonoPcm.ext hm.symm hs.symm
      · obtain ⟨e, hadmits⟩ := AudioLimits.admitAudio_error ha
        simp only [hadmits, reduceCtorEq, false_iff]
        exact fun h => ha h.2.2.2.1
  · simp only [validateRate, if_neg hr, bind, Except.bind, reduceCtorEq, false_iff]
    exact fun h => hr h.1

end MonoPcm

/-- `f32::round`: to the nearest integer, halves away from zero. -/
def roundHalfAway (x : ℚ) : Int := if 0 ≤ x then ⌊x + 1 / 2⌋ else -⌊-x + 1 / 2⌋

def clamp {α : Type} [Min α] [Max α] (low high x : α) : α := min high (max low x)

def floatToI16 (sample : ℚ) : Int :=
  if sample ≤ -1 then -2 ^ 15
  else clamp (-2 ^ 15) (2 ^ 15 - 1) (roundHalfAway (clamp (-1) 1 sample * 32768))

def MonoPcm.toPcm16Le (m : MonoPcm) : List UInt8 :=
  m.samples.flatMap (fun s => toLe 2 (fromI16 (floatToI16 s)))

theorem roundHalfAway_intCast (k : Int) : roundHalfAway (k : ℚ) = k := by
  have hfloor (n : Int) : ⌊(n : ℚ) + 1 / 2⌋ = n := by
    rw [Int.floor_eq_iff]
    constructor <;> linarith
  unfold roundHalfAway
  split
  · exact hfloor k
  · rw [← Int.cast_neg, hfloor (-k), neg_neg]

/-- Every sample that decoding can produce is encoded as the number it came from. -/
theorem floatToI16_decoded {k : Int} (hl : -2 ^ 15 ≤ k) (hu : k < 2 ^ 15) :
    floatToI16 ((k : ℚ) / 32768) = k := by
  have hu' : (k : ℚ) < 32768 := by exact_mod_cast hu
  have hl' : (-32768 : ℚ) ≤ (k : ℚ) := by exact_mod_cast hl
  unfold floatToI16
  split
  · rename_i hle
    rw [div_le_iff₀ (by norm_num)] at hle
    have hk : k ≤ -32768 := by exact_mod_cast (show (k : ℚ) ≤ -32768 by linarith)
    omega
  · rename_i hgt
    have hhi : (k : ℚ) / 32768 ≤ 1 := by rw [div_le_iff₀ (by norm_num)]; linarith
    have hclamp : clamp (-1) 1 ((k : ℚ) / 32768) = (k : ℚ) / 32768 := by
      rw [clamp, max_eq_right (not_le.mp hgt).le, min_eq_right hhi]
    rw [hclamp, div_mul_cancel₀ _ (by norm_num), roundHalfAway_intCast]
    unfold clamp
    omega

theorem toPcm16Le_length (m : MonoPcm) : m.toPcm16Le.length = 2 * m.samples.length := by
  unfold MonoPcm.toPcm16Le
  induction m.samples with
  | nil => rfl
  | cons s rest ih =>
      simp only [List.flatMap_cons, List.length_append, toLe_length, ih, List.length_cons]; omega

theorem encode_decodeSample (low high : UInt8) :
    toLe 2 (fromI16 (floatToI16 (decodeSample low high))) = [low, high] := by
  obtain ⟨hl, hu⟩ := toI16_bounds (fromLe_pair_lt low high)
  rw [decodeSample, floatToI16_decoded hl hu, fromI16_toI16 (fromLe_pair_lt low high)]
  exact toLe_fromLe [low, high]

theorem encode_decodePcm16 {bytes : List UInt8} (h : bytes.length % 2 = 0) :
    (decodePcm16 bytes).flatMap (fun s => toLe 2 (fromI16 (floatToI16 s))) = bytes := by
  induction bytes using decodePcm16.induct with
  | case1 low high rest ih =>
      have hr : rest.length % 2 = 0 := by simp only [List.length_cons] at h; omega
      simp only [decodePcm16, List.flatMap_cons, encode_decodeSample, ih hr, List.cons_append,
        List.nil_append]
  | case2 => simp at h
  | case3 => rfl

/-- Encoding is a left inverse of decoding on every byte string that decodes. -/
theorem toPcm16Le_fromPcm16Le {bytes : List UInt8} {rate : Nat} {limits : AudioLimits} {m : MonoPcm}
    (h : MonoPcm.fromPcm16Le bytes rate limits = .ok m) : m.toPcm16Le = bytes := by
  obtain ⟨_, _, he, _, _, hs⟩ := MonoPcm.fromPcm16Le_eq_ok.mp h
  rw [MonoPcm.toPcm16Le, hs, encode_decodePcm16 he]

end ImpossibleVoice.Audio
