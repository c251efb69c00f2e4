import ImpossibleVoice.Stt.Totality

namespace ImpossibleVoice.Stt

open Lib Audio

/-- The arithmetic and the reads behind one sample, on an input whose last index
is `lastInput`. -/
structure SampleSafe (rate lastInput inputLength index : Nat) : Prop where
  product : index * rate < 2 ^ 64
  remainder : index * rate % engineSampleRate < 2 ^ 16
  target : engineSampleRate < 2 ^ 16
  left : index * rate / engineSampleRate < inputLength
  right : min (saturatingAdd 64 (index * rate / engineSampleRate) 1) lastInput < inputLength

structure PushSafe (rate : Nat) (resampler : StreamingResampler) (count : Nat) : Prop where
  sum : resampler.input.length + count < 2 ^ 64
  product : (resampler.input.length + count - 1) * engineSampleRate < 2 ^ 64
  available : (resampler.input.length + count - 1) * engineSampleRate / rate + 1 < 2 ^ 64
  samples : ∀ index, index < (resampler.input.length + count - 1) * engineSampleRate / rate + 1 →
    SampleSafe rate (resampler.input.length + count - 1) (resampler.input.length + count) index

structure Retained (rate : Nat) (limits : AudioLimits) (s : StreamingSession) : Prop where
  input : s.resampler.input = s.decoder.samples
  bytes : 2 * s.decoder.samples.length + s.decoder.pending.toList.length ≤
    limits.maxEncodedBytes.toNat
  duration : 1000 * s.decoder.samples.length ≤ rate * limits.maxDurationMs.toNat
  nextOutput : s.resampler.nextOutput =
    if s.decoder.samples.length = 0 then 0 else (s.decoder.samples.length - 1) * 16000 / rate + 1
  residual : s.residual.length < 320
  safe : ∀ bytes decoded decoder,
    (IncrementalPcm16.push bytes).run s.decoder = .ok decoded decoder → decoded ≠ [] →
    PushSafe rate s.resampler decoded.length ∧
      ∃ converted resampler,
        (StreamingResampler.push (decoded.map .finite)).run s.resampler = .ok converted resampler

structure InStep (rate : Nat) (taken : List UInt8) (s : StreamingSession) : Prop where
  decoder : s.decoder = IncrementalPcm16.after rate .default taken
  resampler : s.resampler = StreamingResampler.after rate engineSampleRate (decodePcm16 taken)
  residual : s.residual.length < vadFrame + 1
  admits : taken = [] ∨ AudioLimits.default.Admits taken.length rate (taken.length / 2)

section

variable {rate : Nat} {taken bytes : List UInt8} {s : StreamingSession}

theorem few_of_admits (hr : rate ∈ supportedSampleRates)
    (h : taken = [] ∨ AudioLimits.default.Admits taken.length rate (taken.length / 2)) :
    (decodePcm16 taken).length ≤ 14400000 ∧ taken.length ≤ 33554432 := by
  have hr' := supported_bounds hr
  have hlength := length_eq_decoded taken
  obtain rfl | ⟨hbytes, -, hduration⟩ := h
  · exact ⟨Nat.zero_le _, Nat.zero_le _⟩
  · have hdefault : AudioLimits.default.maxDurationMs.toNat = 300000 := by decide
    have hencoded : AudioLimits.default.maxEncodedBytes.toNat = 33554432 := by decide
    rw [hdefault] at hduration
    rw [hencoded] at hbytes
    omega

theorem fits_of_few {n : Nat} (h : n ≤ 14400000) : Fits engineSampleRate n := by
  have hmul : (n - 1) * engineSampleRate ≤ 14400000 * 16000 := Nat.mul_le_mul (by omega) (by decide)
  rw [Fits]
  omega

theorem pushSafe (hr : rate ∈ supportedSampleRates) {xs : List ℚ} {count : Nat}
    (hcount : count ≠ 0) (hfew : xs.length + count ≤ 14400000) :
    PushSafe rate (StreamingResampler.after rate engineSampleRate xs) count := by
  have hr' := supported_bounds hr
  have hfit : (xs.length + count - 1) * engineSampleRate < 2 ^ 64 := fits_of_few hfew
  have hdiv : (xs.length + count - 1) * engineSampleRate / rate ≤
      (xs.length + count - 1) * engineSampleRate / 2 :=
    Nat.div_le_div_left (by omega) (by omega)
  refine ⟨?_, hfit, ?_, fun index hindex => ?_⟩
  · change xs.length + count < 2 ^ 64
    omega
  · change (xs.length + count - 1) * engineSampleRate / rate + 1 < 2 ^ 64
    omega
  · change index < (xs.length + count - 1) * engineSampleRate / rate + 1 at hindex
    have hgrid : index < gridLength rate engineSampleRate (xs.length + count) := by
      rw [gridLength, if_neg (by omega)]
      exact hindex
    have hleft : index * rate / engineSampleRate ≤ xs.length + count - 1 :=
      gridLeft_le (by omega) hgrid
    change SampleSafe rate (xs.length + count - 1) (xs.length + count) index
    refine ⟨position_lt (by omega) hfit hgrid, ?_, by decide, by omega, by omega⟩
    exact Nat.lt_trans (Nat.mod_lt _ (by decide)) (by decide)

theorem InStep.retained (hr : rate ∈ supportedSampleRates) (h : InStep rate taken s) :
    Retained rate .default s := by
  have hlength := length_eq_decoded taken
  obtain ⟨hfew, hbytes⟩ := few_of_admits hr h.admits
  refine ⟨by rw [h.decoder, h.resampler]; rfl, ?_, ?_, ?_, h.residual,
    fun bytes decoded decoder hpush hne => ?_⟩
  · rw [h.decoder]
    change 2 * (decodePcm16 taken).length + (oddByte taken).toList.length ≤ 33554432
    omega
  · rw [h.decoder]
    change 1000 * (decodePcm16 taken).length ≤ rate * 300000
    obtain rfl | hadmits := h.admits
    · exact Nat.zero_le _
    · have hduration : taken.length / 2 * 1000 ≤ rate * 300000 := hadmits.2.2
      omega
  · rw [h.decoder, h.resampler]
    rfl
  · rw [h.decoder] at hpush
    have hadmits :
        AudioLimits.default.Admits (taken ++ bytes).length rate ((taken ++ bytes).length / 2) := by
      by_contra hno
      obtain ⟨e, herror⟩ := IncrementalPcm16.run_push_error (by omega) hno
      rw [herror] at hpush
      cases hpush
    rw [IncrementalPcm16.run_push hadmits] at hpush
    cases hpush
    have hsplit := decodePcm16_split taken bytes
    obtain ⟨hfew', -⟩ := few_of_admits hr (.inr hadmits)
    rw [hsplit, List.length_append] at hfew'
    rw [h.resampler]
    refine ⟨pushSafe hr (fun hzero => hne (List.length_eq_zero_iff.mp hzero)) hfew', _, _,
      StreamingResampler.run_push hr (by decide) (decodePcm16 taken) (by simpa using hne) ?_ ?_⟩
    · exact decoded_not_invalid _
    · rw [F32.map_value_finite, ← hsplit]
      exact fits_of_few (by rw [hsplit, List.length_append]; exact hfew')

/-- The layers while a push is between the decoder and the resampler. -/
structure Decoded (rate : Nat) (taken bytes : List UInt8) (decoded : List ℚ)
    (s : StreamingSession) : Prop where
  decoder : s.decoder = IncrementalPcm16.after rate .default (taken ++ bytes)
  resampler : s.resampler = StreamingResampler.after rate engineSampleRate (decodePcm16 taken)
  residual : s.residual.length < vadFrame + 1
  admits : AudioLimits.default.Admits (taken ++ bytes).length rate ((taken ++ bytes).length / 2)
  decoded : decoded = decodePcm16 ((oddByte taken).toList ++ bytes)

theorem decoder_triple (hr : rate ∈ supportedSampleRates) (taken bytes : List UInt8) :
    Triple (InStep rate taken)
      (zoom StreamingSession.decoder StreamingSession.setDecoder (fun _ => SttError.audio)
      (IncrementalPcm16.push bytes)) (Decoded rate taken bytes) (fun _ => InStep rate taken) := by
  intro s h
  rw [run_zoom, h.decoder]
  obtain ⟨-, hbytes⟩ := few_of_admits hr h.admits
  by_cases hadmits :
    AudioLimits.default.Admits (taken ++ bytes).length rate ((taken ++ bytes).length / 2)
  · rw [IncrementalPcm16.run_push hadmits]
    exact ⟨rfl, h.resampler, h.residual, hadmits, rfl⟩
  · obtain ⟨e, herror⟩ := IncrementalPcm16.run_push_error (by omega) hadmits
    rw [herror]
    exact ⟨rfl, h.resampler, h.residual, h.admits⟩

/-- Between the resampler and the framing only the residual is out of bounds. -/
structure Resampled (rate : Nat) (taken : List UInt8) (s : StreamingSession) : Prop where
  decoder : s.decoder = IncrementalPcm16.after rate .default taken
  resampler : s.resampler = StreamingResampler.after rate engineSampleRate (decodePcm16 taken)
  admits : AudioLimits.default.Admits taken.length rate (taken.length / 2)

theorem resampler_triple (hr : rate ∈ supportedSampleRates) (taken bytes : List UInt8)
    {decoded : List ℚ} (hne : decoded ≠ []) {E : SttError → StreamingSession → Prop} :
    Triple (Decoded rate taken bytes decoded)
      (zoom StreamingSession.resampler StreamingSession.setResampler (fun _ => SttError.audio)
      (StreamingResampler.push (decoded.map .finite)))
      (fun _ => Resampled rate (taken ++ bytes)) E := by
  intro s h
  have hsplit := decodePcm16_split taken bytes
  obtain ⟨hfew, -⟩ := few_of_admits hr (.inr h.admits)
  have hvalid : (decoded.map F32.finite).any F32.invalid = false := by
    rw [h.decoded]
    exact decoded_not_invalid _
  have hpush :=
    StreamingResampler.run_push hr (t := engineSampleRate) (by decide) (decodePcm16 taken)
    (by rw [Ne, List.map_eq_nil_iff]; exact hne) hvalid
    (by rw [F32.map_value_finite, h.decoded, ← hsplit]; exact fits_of_few hfew)
  rw [F32.map_value_finite, h.decoded, ← hsplit, ← h.decoded, ← h.resampler] at hpush
  rw [run_zoom, hpush]
  exact ⟨h.decoder, rfl, h.admits⟩

theorem pushPcm16_inStep (hr : rate ∈ supportedSampleRates) (engine : SttEngine)
    (context : RequestContext) (bytes : List UInt8) :
    Preserves (fun s => ∃ taken, InStep rate taken s)
      (StreamingSession.pushPcm16 engine context bytes) := by
  rintro s ⟨taken, h⟩
  have hmain : Triple (InStep rate taken) (StreamingSession.pushPcm16 engine context bytes)
      (fun _ s => ∃ taken, InStep rate taken s) (fun _ s => ∃ taken, InStep rate taken s) := by
    have hcheck {taken : List UInt8} :
        Preserves (InStep rate taken) (onWorld (ensureActive context)) :=
      Preserves.zoom (fun _ _ h => ⟨h.decoder, h.resampler, h.residual, h.admits⟩) _ _
    refine Triple.bind (Q := fun _ => InStep rate taken) (Triple.gets fun _ h => h)
      fun finished => ?_
    refine Triple.bind
      ((Preserves.failIf _ _).conseq (fun _ h => h) (fun _ _ h => h) fun _ s h => ⟨taken, h⟩)
      fun _ => ?_
    refine Triple.bind
      (hcheck.conseq (fun _ h => h) (fun _ _ h => h) fun _ s h => ⟨taken, h⟩) fun _ => ?_
    refine Triple.bind
      ((decoder_triple hr taken bytes).conseq (fun _ h => h) (fun _ _ h => h) fun _ s
      h => ⟨taken, h⟩)
      fun decoded => ?_
    split
    case isTrue hnil =>
      refine Triple.pure fun s h => ⟨taken ++ bytes, h.decoder, ?_, h.residual, .inr h.admits⟩
      rw [h.resampler, decodePcm16_split, ← h.decoded, hnil, List.append_nil]
    case isFalse hne =>
      refine Triple.bind (resampler_triple hr taken bytes hne) fun converted => ?_
      refine Triple.bind (Q := fun _ => Resampled rate (taken ++ bytes)) (Triple.gets fun _ h => h)
        fun residual => ?_
      refine Triple.bind (Q := fun _ => InStep rate (taken ++ bytes)) (Triple.modify fun s h =>
        ⟨h.decoder, h.resampler, remainder_length_lt vadFrame _, .inr h.admits⟩) fun _ => ?_
      refine Triple.conseq (Q := fun _ => InStep rate (taken ++ bytes))
        (E := fun _ => InStep rate (taken ++ bytes)) ?_
        (fun _ h => h) (fun _ s h => ⟨taken ++ bytes, h⟩) fun _ s h => ⟨taken ++ bytes, h⟩
      refine Triple.bind (Preserves.collect (fun frame => processFrame_preserves
        (fun _ _ _ _ _ _ _ h => ⟨h.decoder, h.resampler, h.residual, h.admits⟩) frame) _)
          fun updates => ?_
      exact Triple.bind hcheck fun _ => Preserves.pure updates
  exact hmain s h

def reached {α : Type} : EStateM.Result SttError StreamingSession α → StreamingSession
  | .ok _ s => s
  | .error _ s => s

/-- A session after a sequence of frames, with what others did to the world in
between. -/
def afterPushes (engine : SttEngine) (context : RequestContext) (s : StreamingSession) :
    List (World × List UInt8) → StreamingSession
  | [] => s
  | (world, bytes) :: calls =>
    afterPushes engine context
      (reached ((StreamingSession.pushPcm16 engine context bytes).run (s.setWorld world))) calls

theorem afterPushes_inStep (hr : rate ∈ supportedSampleRates) (engine : SttEngine)
    (context : RequestContext) (calls : List (World × List UInt8))
    (h : ∃ taken, InStep rate taken s) :
    ∃ taken, InStep rate taken (afterPushes engine context s calls) := by
  induction calls generalizing s with
  | nil => exact h
  | cons call calls ih =>
      obtain ⟨taken, h⟩ := h
      have hworld : InStep rate taken (s.setWorld call.1) :=
        ⟨h.decoder, h.resampler, h.residual, h.admits⟩
      apply ih
      have hpush := pushPcm16_inStep hr engine context call.2 (s.setWorld call.1) ⟨taken, hworld⟩
      cases hrun : (StreamingSession.pushPcm16 engine context call.2).run (s.setWorld call.1) with
      | ok updates t => rw [hrun] at hpush; exact hpush
      | error e t => rw [hrun] at hpush; exact hpush

theorem opened_inStep {engine : SttEngine} (hlimits : engine.limits.audio = .default)
    (rate stream : Nat) (world : World) : InStep rate [] (opened engine rate stream world) := by
  refine ⟨?_, rfl, Nat.zero_lt_succ _, .inl rfl⟩
  rw [opened, hlimits]

/-- What a session retains is bounded and its layers stay in step, whatever is
pushed and whatever fails. -/
theorem retained_state_is_bounded_and_in_step {engine : SttEngine}
    (hlimits : engine.limits.audio = .default) {rate : Nat} {context : RequestContext}
    {w w₀ : World} {s₀ : StreamingSession}
    (hopen : (engine.startStream rate context).run w = .ok s₀ w₀)
    (calls : List (World × List UInt8)) :
    Retained rate .default (afterPushes engine context s₀ calls) := by
  obtain ⟨hr, rfl, -⟩ := startStream_eq_ok hopen
  obtain ⟨taken, h⟩ :=
    afterPushes_inStep hr engine context calls ⟨[], opened_inStep hlimits rate _ w₀⟩
  exact h.retained hr

/-- A frame that closes an utterance, then an empty one that is refused. -/
theorem retained_state_of_two_frames :
    ∃ s₀ w₀, (briefEngine.startStream 16000 .live).run ⟨[], 0, 0, 0⟩ = .ok s₀ w₀ ∧
    ∃ updates s, (StreamingSession.pushPcm16 briefEngine .live twoFrames).run s₀ = .ok updates s ∧
    (afterPushes briefEngine .live s₀ [(w₀, twoFrames), (s.world, [])]) = s ∧
    s.decoder.samples.length = 641 ∧ Retained 16000 .default s := by
  obtain ⟨w₀, hopen⟩ := briefEngine_opens
  obtain ⟨updates, s, -, -, hpushes, -⟩ := briefEngine_hears hopen
  obtain ⟨hr, -, -⟩ := startStream_eq_ok hopen
  obtain ⟨-, -, htracks, -⟩ :=
    pushes_sound hr (opened_tracks briefEngine 16000 0 w₀) [twoFrames] hpushes
  rw [run_collect_singleton] at hpushes
  have hretained := retained_state_is_bounded_and_in_step rfl hopen [(w₀, twoFrames), (s.world, [])]
  have hrefused : (StreamingSession.pushPcm16 briefEngine .live []).run s =
      .error .invalidInput s := by
    rw [StreamingSession.pushPcm16, run_bind_of_ok (run_gets _ _),
      run_bind_of_error (run_failIf_pos (.inr (.inl rfl)) _ _)]
  have hafter :
      afterPushes briefEngine .live (opened briefEngine 16000 0 w₀)
      [(w₀, twoFrames), (s.world, [])] = s := by
    rw [afterPushes,
      show (opened briefEngine 16000 0 w₀).setWorld w₀ = opened briefEngine 16000 0 w₀ from rfl,
      hpushes,
      afterPushes, show (reached (.ok updates s)).setWorld s.world = s from rfl, hrefused]
    rfl
  rw [hafter] at hretained
  refine ⟨_, w₀, hopen, updates, s, hpushes, hafter, ?_, hretained⟩
  rw [htracks.decoder, IncrementalPcm16.after, List.flatten_singleton, decode_twoFrames,
    List.length_replicate]

end

end ImpossibleVoice.Stt
