import ImpossibleVoice.Audio.Resample

namespace ImpossibleVoice.Audio

open Lib

/-- Round `index` of the resampling loop on `n` samples: the product fits, both
indices lie in the input, and both conversions to 16 bits go through. -/
structure RoundSafe (n sourceRate targetRate index : Nat) : Prop where
  position : checkedMul 64 index sourceRate = some (index * sourceRate)
  left : index * sourceRate / targetRate < n
  right : min (saturatingAdd 64 (index * sourceRate / targetRate) 1) (n - 1) < n
  remainder : tryNarrow 16 (index * sourceRate % targetRate) =
    some (index * sourceRate % targetRate)
  target : tryNarrow 16 targetRate = some targetRate

variable {s t : Nat}

theorem roundSafe (hs : s ∈ supportedSampleRates) (ht : t ∈ supportedSampleRates) {n index : Nat}
    (hfit : Fits t n) (h : index < gridLength s t n) : RoundSafe n s t index := by
  have hs' := supported_bounds hs
  obtain ⟨htl, htu⟩ := supported_bounds ht
  have hleft : index * s / t < n := gridLeft_lt (by omega) h
  refine ⟨checkedMul_of_lt (position_lt (by omega) hfit h), hleft, ?_, ?_,
    tryNarrow_of_lt (by omega)⟩
  · apply Nat.lt_of_le_of_lt (min_le_right _ _)
    exact Nat.sub_lt (Nat.zero_lt_of_lt hleft) Nat.one_pos
  · apply tryNarrow_of_lt
    exact Nat.lt_of_lt_of_le (Nat.mod_lt _ (by omega)) (by omega)

/-- Resampling a valid recording succeeds, and each output sample is the exact
linear interpolation at its position. -/
theorem resampling_is_exact (m : MonoPcm) (ht : t ∈ supportedSampleRates)
    (hlen : m.samples.length * 48000 < 2 ^ 64) :
    ∃ out, m.resample t = .ok out ∧ out.sampleRate = t ∧
    out.samples.length = (m.samples.length - 1) * t / m.sampleRate + 1 ∧
    (∀ i < out.samples.length, RoundSafe m.samples.length m.sampleRate t i) ∧
    (∀ i (h : i < out.samples.length),
      OnPolygon m.samples ((i : ℚ) * m.sampleRate / t) out.samples[i] ∧
      (∀ k (hk : k + 1 < m.samples.length), (k : ℚ) ≤ (i : ℚ) * m.sampleRate / t →
        (i : ℚ) * m.sampleRate / t ≤ k + 1 →
        min m.samples[k] m.samples[k + 1] ≤ out.samples[i] ∧
        out.samples[i] ≤ max m.samples[k] m.samples[k + 1]) ∧
      -1 ≤ out.samples[i] ∧ out.samples[i] ≤ 1) ∧
    out.samples.head? = m.samples.head? ∧
    (m.sampleRate ∣ (m.samples.length - 1) * t → out.samples.getLast? = m.samples.getLast?) ∧
    ((out.samples.length - 1 : Nat) : ℚ) * m.sampleRate / t ≤ (m.samples.length - 1 : Nat) ∧
    ((m.samples.length - 1 : Nat) : ℚ) < (out.samples.length : ℚ) * m.sampleRate / t := by
  have hs := supported_bounds m.rate_supported
  have ht' := supported_bounds ht
  have hspos : 0 < m.sampleRate := by omega
  have htpos : 0 < t := by omega
  have hn : m.samples.length ≠ 0 := fun h0 => m.samples_ne_nil (List.length_eq_zero_iff.mp h0)
  have hfit : Fits t m.samples.length :=
    Nat.lt_of_le_of_lt (Nat.mul_le_mul (Nat.sub_le _ 1) ht'.2) hlen
  obtain ⟨out, hout, hrate, hsamples⟩ := m.resample_ok ht hfit
  have hlength : out.samples.length = gridLength m.sampleRate t m.samples.length := by
    rw [hsamples, resampled_length]
  have hpolygon (i : Nat) (h : i < out.samples.length) :
      OnPolygon m.samples ((i : ℚ) * m.sampleRate / t) out.samples[i] := by
    simp only [hsamples, resampled, List.getElem_map, List.getElem_range]
    exact interpolate_onPolygon hspos htpos (by rw [← hlength]; exact h)
  have hpos : 0 < out.samples.length := List.length_pos_iff.mpr out.samples_ne_nil
  have htQ : (0 : ℚ) < t := by exact_mod_cast htpos
  have hend := grid_end (t := t) hspos hn
  rw [← hlength] at hend
  refine ⟨out, hout, hrate, ?_,
    fun i h => roundSafe m.rate_supported ht hfit (by rw [← hlength]; exact h),
    fun i h =>
      ⟨hpolygon i h, fun k hk hl hu => (hpolygon i h).between hk hl hu,
      out.in_range _ (List.getElem_mem h)⟩,
    ?_, ?_, ?_, ?_⟩
  · rw [hlength, gridLength, if_neg hn]
  · have hfirst := (hpolygon 0 hpos).vertex 0 (Nat.pos_of_ne_zero hn) (by simp)
    rw [List.head?_eq_getElem?, List.head?_eq_getElem?, List.getElem?_eq_getElem hpos,
      List.getElem?_eq_getElem (Nat.pos_of_ne_zero hn), hfirst]
  · intro hdvd
    have hposition : (out.samples.length - 1) * m.sampleRate = (m.samples.length - 1) * t := by
      rw [hlength, gridLength, if_neg hn, Nat.add_sub_cancel, Nat.div_mul_cancel hdvd]
    have hlast :=
      (hpolygon (out.samples.length - 1) (by omega)).vertex (m.samples.length - 1) (by omega) (by
      rw [div_eq_iff htQ.ne']
      exact_mod_cast hposition)
    rw [List.getLast?_eq_getElem?, List.getLast?_eq_getElem?, List.getElem?_eq_getElem (by omega),
      List.getElem?_eq_getElem (by omega), hlast]
  · rw [div_le_iff₀ htQ]
    exact_mod_cast hend.1
  · rw [lt_div_iff₀ htQ]
    exact_mod_cast hend.2

/-- Two samples at 8 kHz become three at 16 kHz. -/
theorem resampling_is_exact_up_by_two :
    ∃ m out, MonoPcm.new 8000 [.finite (1 / 2), .finite (-1 / 2)] = .ok m ∧
    m.resample 16000 = .ok out ∧ out.samples.length = 3 ∧ out.samples.head? = m.samples.head? ∧
    out.samples.getLast? = m.samples.getLast? := by
  have hr : 8000 ∈ supportedSampleRates := by decide
  have hv : ∀ x ∈ ([1 / 2, -1 / 2] : List ℚ), -1 ≤ x ∧ x ≤ 1 := by
    simp only [List.mem_cons, List.not_mem_nil, or_false]
    rintro x (rfl | rfl) <;> norm_num
  have hm := MonoPcm.new_finite hr (List.cons_ne_nil _ _) hv
  have hlen : ([1 / 2, -1 / 2] : List ℚ).length * 48000 < 2 ^ 64 := by
    rw [List.length_cons, List.length_singleton]
    norm_num
  obtain ⟨out, hout, -, hlength, -, -, hfirst, hlast, -⟩ :=
    resampling_is_exact (t := 16000) ⟨8000, [1 / 2, -1 / 2], hr,
    List.cons_ne_nil _ _, hv⟩ (by decide) hlen
  exact ⟨_, out, hm, hout, by simpa using hlength, hfirst, hlast (by norm_num)⟩

end ImpossibleVoice.Audio
