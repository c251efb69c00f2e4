import ImpossibleVoice.Audio.Pcm
import ImpossibleVoice.Lib.Effect
import ImpossibleVoice.Lib.Interpolation

namespace ImpossibleVoice.Audio

open Lib

def outputLength (intervals sourceRate targetRate : Nat) : Except AudioError Nat :=
  okOr (do
    let value ← checkedMul 64 intervals targetRate
    let value ← if sourceRate = 0 then none else some (value / sourceRate)
    checkedAdd 64 value 1) "resampled audio is too large"

/-- One output sample: the loop body that one-shot and streaming resampling
share, `lastInput` being the last index either of them may read. -/
def sampleAt (input : List ℚ) (sourceRate targetRate lastInput index : Nat) :
    Except AudioError ℚ := do
  let position ← okOr (checkedMul 64 index sourceRate) "resampled audio is too large"
  let left := position / targetRate
  let right := min (saturatingAdd 64 left 1) lastInput
  let remainder ← okOr (tryNarrow 16 (position % targetRate)) "resampled audio is too large"
  let target ← okOr (tryNarrow 16 targetRate) "resampled audio is too large"
  let fraction : ℚ := remainder / target
  .ok (input.getD left 0 + (input.getD right 0 - input.getD left 0) * fraction)

def MonoPcm.resample (m : MonoPcm) (targetRate : Nat) : Except AudioError MonoPcm := do
  validateRate targetRate
  if targetRate = m.sampleRate then .ok m
  else do
    let outputLen ← outputLength (m.samples.length - 1) m.sampleRate targetRate
    let output ← (List.range outputLen).mapM
      (sampleAt m.samples m.sampleRate targetRate (m.samples.length - 1))
    new targetRate (output.map .finite)

@[ext] structure StreamingResampler where
  sourceRate : Nat
  targetRate : Nat
  input : List ℚ
  nextOutput : Nat
deriving DecidableEq

namespace StreamingResampler

def new (sourceRate targetRate : Nat) : Except AudioError StreamingResampler := do
  validateRate sourceRate
  validateRate targetRate
  .ok ⟨sourceRate, targetRate, [], 0⟩

/-- The output loop, `count` being the number of rounds left. -/
def emit (lastInput : Nat) : Nat → EStateM AudioError StreamingResampler (List ℚ)
  | 0 => pure []
  | count + 1 => do
      let resampler ← get
      let sample ← fromExcept
        (sampleAt resampler.input resampler.sourceRate resampler.targetRate lastInput
          resampler.nextOutput)
      modify fun r => { r with nextOutput := r.nextOutput + 1 }
      let output ← emit lastInput count
      pure (sample :: output)

def push (samples : List F32) : EStateM AudioError StreamingResampler (List ℚ) := do
  failIf (samples = [] ∨ samples.any F32.invalid = true) ⟨"streaming resampler input is invalid"⟩
  let before ← get
  let _ ← fromExcept
      (okOr (checkedAdd 64 before.input.length samples.length) "resampled audio is too large")
  modify fun r => { r with input := r.input ++ samples.map F32.value }
  let resampler ← get
  let lastInput := resampler.input.length - 1
  let available ← fromExcept (outputLength lastInput resampler.sourceRate resampler.targetRate)
  emit lastInput (available - resampler.nextOutput)

end StreamingResampler

/-- The checked products of a recording of `n` samples fit 64 bits. -/
def Fits (targetRate n : Nat) : Prop := (n - 1) * targetRate < 2 ^ 64

instance (targetRate n : Nat) : Decidable (Fits targetRate n) := inferInstanceAs (Decidable (_ < _))

theorem Fits.zero (t : Nat) : Fits t 0 := by
  rw [Fits, Nat.zero_sub, Nat.zero_mul]
  omega

theorem Fits.mono {t n m : Nat} (h : Fits t m) (hnm : n ≤ m) : Fits t n :=
  Nat.lt_of_le_of_lt (Nat.mul_le_mul_right t (by omega)) h

section

variable {s t : Nat}

theorem outputLength_ok (hs : s ∈ supportedSampleRates) {n : Nat} (hn : n ≠ 0) (h : Fits t n) :
    outputLength (n - 1) s t = .ok (gridLength s t n) := by
  have hs' := (supported_bounds hs).1
  have hlt : (n - 1) * t / s + 1 < 2 ^ 64 := by
    have hdiv : (n - 1) * t / s ≤ (n - 1) * t / 2 := Nat.div_le_div_left (by omega) (by omega)
    have h' : (n - 1) * t < 2 ^ 64 := h
    omega
  simp [outputLength, checkedMul_of_lt h, checkedAdd_of_lt hlt, show s ≠ 0 by omega, gridLength, hn]

theorem outputLength_error {n : Nat} (h : ¬ Fits t n) : ∃ e, outputLength (n - 1) s t = .error e :=
  ⟨⟨"resampled audio is too large"⟩, by simp [outputLength, checkedMul_of_ge (Nat.not_lt.mp h)]⟩

theorem sampleAt_ok (ht : t ∈ supportedSampleRates) {input : List ℚ} {last i : Nat}
    (hi : i * s < 2 ^ 64) : sampleAt input s t last i = .ok (interpolate input s t last i) := by
  obtain ⟨htl, htu⟩ := supported_bounds ht
  have hrem : i * s % t < 2 ^ 16 := Nat.lt_of_lt_of_le (Nat.mod_lt _ (by omega)) (by omega)
  have hleft : i * s / t + 1 < 2 ^ 64 := by
    have : i * s / t ≤ i * s / 2 := Nat.div_le_div_left (by omega) (by omega)
    omega
  have hsat : saturatingAdd 64 (i * s / t) 1 = i * s / t + 1 := Nat.min_eq_left (by omega)
  simp only [sampleAt, checkedMul_of_lt hi, okOr_some, tryNarrow_of_lt hrem,
    tryNarrow_of_lt (show t < 2 ^ 16 by omega), bind, Except.bind, hsat]
  rfl

/-- No output index inside the grid overflows its position. -/
theorem position_lt (hs : 0 < s) {n i : Nat} (h : Fits t n) (hi : i < gridLength s t n) :
    i * s < 2 ^ 64 :=
  Nat.lt_of_le_of_lt (grid_position_le hs hi) h

theorem mapM_ok {α β ε : Type} {f : α → Except ε β} {g : α → β} {xs : List α}
    (h : ∀ x ∈ xs, f x = .ok (g x)) : xs.mapM f = .ok (xs.map g) := by
  induction xs with
  | nil => rfl
  | cons x xs ih =>
      rw [List.mapM_cons, h x (by simp), ih (fun y hy => h y (by simp [hy]))]
      rfl

theorem MonoPcm.resample_ok (m : MonoPcm) (ht : t ∈ supportedSampleRates)
    (h : Fits t m.samples.length) :
    ∃ out, m.resample t = .ok out ∧ out.sampleRate = t ∧
    out.samples = resampled m.sampleRate t m.samples := by
  have hs := supported_bounds m.rate_supported
  have ht' := supported_bounds ht
  have hlen : m.samples.length ≠ 0 := fun h0 => m.samples_ne_nil (List.length_eq_zero_iff.mp h0)
  unfold MonoPcm.resample
  rw [validateRate_ok ht]
  by_cases heq : t = m.sampleRate
  · refine ⟨m, by simp [bind, Except.bind, heq], heq.symm, ?_⟩
    rw [heq, resampled_self (by omega)]
  · have hmap := mapM_ok (f := sampleAt m.samples m.sampleRate t (m.samples.length - 1))
      (fun i hi => sampleAt_ok ht (position_lt (by omega) h (List.mem_range.mp hi)))
    have hne : resampled m.sampleRate t m.samples ≠ [] := fun h0 =>
      hlen (gridLength_eq_zero.mp (by rw [← resampled_length (F := ℚ), h0]; rfl))
    have hnew := MonoPcm.new_finite ht hne
      (resampled_mem_Icc (by omega) (by omega) m.in_range)
    refine ⟨⟨t, resampled m.sampleRate t m.samples, ht, hne, ?_⟩, ?_, rfl, rfl⟩
    · exact resampled_mem_Icc (by omega) (by omega) m.in_range
    · simp only [bind, Except.bind, if_neg heq, outputLength_ok m.rate_supported hlen h, hmap]
      exact hnew

namespace StreamingResampler

def after (s t : Nat) (xs : List ℚ) : StreamingResampler := ⟨s, t, xs, gridLength s t xs.length⟩

theorem new_ok (hs : s ∈ supportedSampleRates) (ht : t ∈ supportedSampleRates) :
    new s t = .ok (after s t []) := by
  simp only [new, validateRate_ok hs, validateRate_ok ht, bind, Except.bind]
  rfl

theorem run_emit (hs : s ∈ supportedSampleRates) (ht : t ∈ supportedSampleRates) {xs : List ℚ}
    (hfit : Fits t xs.length) (next count : Nat) (hn : next + count ≤ gridLength s t xs.length) :
    (emit (xs.length - 1) count).run ⟨s, t, xs, next⟩ =
      .ok ((List.range' next count).map (interpolate xs s t (xs.length - 1)))
      ⟨s, t, xs, next + count⟩ := by
  induction count generalizing next with
  | zero => rfl
  | succ count ih =>
      have hpos := position_lt (i := next) (by have := supported_bounds hs; omega) hfit
        (Nat.lt_of_lt_of_le (Nat.lt_add_of_pos_right (Nat.succ_pos count)) hn)
      simp only [emit, EStateM.run_bind, EStateM.run_get, sampleAt_ok ht hpos, run_fromExcept_ok,
        EStateM.run_modify, ih (next + 1) (by omega), EStateM.run_pure, List.range'_succ,
          List.map_cons]
      rw [Nat.add_right_comm, Nat.add_assoc]

/-- What one push does to a resampler in step: it refuses only when the
products of the longer input no longer fit. -/
theorem run_push (hs : s ∈ supportedSampleRates) (ht : t ∈ supportedSampleRates) (xs : List ℚ)
    {samples : List F32} (hne : samples ≠ []) (hv : samples.any F32.invalid = false)
    (hfit : Fits t (xs ++ samples.map F32.value).length) :
    (push samples).run (after s t xs) =
      .ok ((resampled s t (xs ++ samples.map F32.value)).drop (gridLength s t xs.length))
        (after s t (xs ++ samples.map F32.value)) := by
  have hs' := supported_bounds hs
  have ht' := supported_bounds ht
  have hlen : (xs ++ samples.map F32.value).length ≠ 0 := by simp [hne]
  have hadd : xs.length + samples.length < 2 ^ 64 := by
    have h : ((xs ++ samples.map F32.value).length - 1) * t < 2 ^ 64 := hfit
    have hm := Nat.mul_le_mul_left ((xs ++ samples.map F32.value).length - 1) ht'.1
    simp only [List.length_append, List.length_map] at h hm
    omega
  have hle : gridLength s t xs.length ≤ gridLength s t (xs ++ samples.map F32.value).length :=
    gridLength_mono (by rw [List.length_append]; omega)
  have hemit := run_emit hs ht hfit (gridLength s t xs.length)
    (gridLength s t (xs ++ samples.map F32.value).length - gridLength s t xs.length) (by omega)
  rw [Nat.add_sub_cancel' hle] at hemit
  have hout : (resampled s t xs ++ (List.range' (gridLength s t xs.length)
      (gridLength s t (xs ++ samples.map F32.value).length - gridLength s t xs.length)).map
      (interpolate (xs ++ samples.map F32.value) s t
        ((xs ++ samples.map F32.value).length - 1))).drop
        (gridLength s t xs.length) = _ := List.drop_left' (resampled_length xs)
  rw [← resampled_append (by omega) (by omega)] at hout
  rw [push, EStateM.run_bind, run_failIf_neg (by simp [hne, hv])]
  simp only [EStateM.run_bind, EStateM.run_get, after, checkedAdd_of_lt hadd, okOr_some,
    run_fromExcept_ok, EStateM.run_modify, outputLength_ok hs hlen hfit]
  rw [hout]
  exact hemit

theorem run_push_error {xs : List ℚ} {samples : List F32}
    (hfit : ¬ Fits t (xs ++ samples.map F32.value).length) :
    ∃ e r, (push samples).run (after s t xs) = .error e r := by
  rw [push, EStateM.run_bind]
  by_cases hbad : samples = [] ∨ samples.any F32.invalid = true
  · exact ⟨_, _, by rw [run_failIf_pos hbad]⟩
  · rw [run_failIf_neg hbad]
    simp only [EStateM.run_bind, EStateM.run_get, after]
    cases hadd : checkedAdd 64 xs.length samples.length with
    | none => exact ⟨_, _, rfl⟩
    | some n =>
        obtain ⟨e, he⟩ := outputLength_error (s := s) hfit
        exact ⟨e, ⟨s, t, xs ++ samples.map F32.value, gridLength s t xs.length⟩, by
          simp only [okOr_some, run_fromExcept_ok, EStateM.run_modify, he, run_fromExcept_error]⟩

/-- Pushing chunk after chunk emits the grid of all of them. -/
theorem run_collect_push (hs : s ∈ supportedSampleRates) (ht : t ∈ supportedSampleRates)
    (chunks : List (List F32)) (hne : ∀ c ∈ chunks, c ≠ [])
    (hv : ∀ c ∈ chunks, c.any F32.invalid = false) (xs : List ℚ)
    (hfit : Fits t (xs ++ chunks.flatten.map F32.value).length) :
    (collect push chunks).run (after s t xs) =
      .ok ((resampled s t (xs ++ chunks.flatten.map F32.value)).drop (gridLength s t xs.length))
      (after s t (xs ++ chunks.flatten.map F32.value)) := by
  induction chunks generalizing xs with
  | nil =>
      rw [List.flatten_nil, List.map_nil, List.append_nil,
        List.drop_of_length_le (by rw [resampled_length])]
      rfl
  | cons c chunks ih =>
      have hs' := supported_bounds hs
      have ht' := supported_bounds ht
      have hsplit : xs ++ (c :: chunks).flatten.map F32.value =
          (xs ++ c.map F32.value) ++ chunks.flatten.map F32.value := by
        rw [List.flatten_cons, List.map_append, List.append_assoc]
      rw [hsplit] at hfit ⊢
      have hfit' : Fits t (xs ++ c.map F32.value).length :=
        hfit.mono (by simp only [List.length_append]; omega)
      have hle : gridLength s t xs.length ≤ (resampled s t (xs ++ c.map F32.value)).length := by
        rw [resampled_length]
        exact gridLength_mono (by rw [List.length_append]; omega)
      rw [run_collect_cons, run_push hs ht xs (hne c (by simp)) (hv c (by simp)) hfit']
      simp only [ih (fun d hd => hne d (by simp [hd])) (fun d hd => hv d (by simp [hd])) _ hfit]
      congr 1
      rw [resampled_append (by omega) (by omega) (xs ++ c.map F32.value),
        List.drop_left' (resampled_length _), List.drop_append_of_le_length hle]

end StreamingResampler

/-- Streaming resampling is one-shot resampling, however the input is cut. -/
theorem streaming_resampling_matches_one_shot (s t : Nat) (chunks : List (List F32)) (m : MonoPcm)
    (ht : t ∈ supportedSampleRates) (hm : MonoPcm.new s chunks.flatten = .ok m)
    (hne : ∀ c ∈ chunks, c ≠ []) (hlen : chunks.flatten.length * 48000 < 2 ^ 64) :
    ∃ start emitted final out,
      StreamingResampler.new s t = .ok start ∧
      (collect StreamingResampler.push chunks).run start = .ok emitted final ∧
      m.resample t = .ok out ∧ emitted = out.samples := by
  obtain ⟨hs, _, hv, hrate, hsamples⟩ := MonoPcm.new_eq_ok.mp hm
  have ht' := supported_bounds ht
  have hv' : ∀ c ∈ chunks, c.any F32.invalid = false := by
    intro c hc
    rw [List.any_eq_false] at hv ⊢
    exact fun x hx => hv x (List.mem_flatten.mpr ⟨c, hc, hx⟩)
  have hfit : Fits t (chunks.flatten.map F32.value).length := by
    rw [List.length_map]
    exact Nat.lt_of_le_of_lt (Nat.mul_le_mul (Nat.sub_le _ 1) ht'.2) hlen
  obtain ⟨out, hout, _, hos⟩ := m.resample_ok ht (by rw [hsamples]; exact hfit)
  have hrun :=
    StreamingResampler.run_collect_push hs ht chunks hne hv' []
      (by rw [List.nil_append]; exact hfit)
  refine ⟨_, _, _, out, StreamingResampler.new_ok hs ht, hrun, hout, ?_⟩
  rw [hos, hrate, hsamples, List.nil_append]
  rfl

theorem streaming_resampling_matches_one_shot_up_by_two :
    ∃ m start emitted final out, MonoPcm.new 8000 [.finite (1 / 2), .finite (-1 / 2)] = .ok m ∧
    StreamingResampler.new 8000 16000 = .ok start ∧
    (collect StreamingResampler.push [[.finite (1 / 2)], [.finite (-1 / 2)]]).run start =
      .ok emitted final ∧ m.resample 16000 = .ok out ∧ emitted = out.samples := by
  have hr : 8000 ∈ supportedSampleRates := by decide
  have hv : ∀ x ∈ ([1 / 2, -1 / 2] : List ℚ), -1 ≤ x ∧ x ≤ 1 := by
    simp only [List.mem_cons, List.not_mem_nil, or_false]
    rintro x (rfl | rfl) <;> norm_num
  have hm := MonoPcm.new_finite hr (List.cons_ne_nil _ _) hv
  obtain ⟨start, emitted, final, out, h⟩ := streaming_resampling_matches_one_shot 8000 16000
    [[.finite (1 / 2)], [.finite (-1 / 2)]] _ (by decide) hm (by simp) (by decide)
  exact ⟨_, start, emitted, final, out, hm, h⟩

end

end ImpossibleVoice.Audio
