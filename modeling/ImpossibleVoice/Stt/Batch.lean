import ImpossibleVoice.Stt.Linearity
import Mathlib.Data.UInt

namespace ImpossibleVoice.Stt

open Lib Audio

section

variable {engine : SttEngine} {rate : Nat} {w w₀ : World} {pushes : List (List UInt8)}

theorem validatePcm_of_fromPcm16Le {bytes : List UInt8} {limits : AudioLimits} {m : MonoPcm}
    (h : MonoPcm.fromPcm16Le bytes rate limits = .ok m) : limits.validatePcm m = .ok () := by
  obtain ⟨_, _, heven, hadmits, hrate, hsamples⟩ := MonoPcm.fromPcm16Le_eq_ok.mp h
  have hlen : m.samples.length * 2 = bytes.length := by
    rw [hsamples, decodePcm16_length]
    omega
  have hlt : bytes.length < 2 ^ 64 := Nat.lt_of_le_of_lt hadmits.1 limits.maxEncodedBytes.toNat_lt
  rw [AudioLimits.validatePcm, checkedMul_of_lt (by rw [hlen]; exact hlt), hlen, hrate, hsamples,
    decodePcm16_length]
  exact AudioLimits.admitAudio_ok hadmits

/-- The answer to `finish` is a function of the samples its stream was given. -/
def TextOf (backend : Backend) (text : List ℚ → String) : Prop :=
  ∀ history n, backend history (.finish n) = .ok (text (accepted history n))

theorem accepted_fresh {history : List Exchange} {n : Nat} (h : nextStream history ≤ n) :
    accepted history n = [] := by
  induction history with
  | nil => rfl
  | cons e history ih =>
      have hcons : nextStream (e :: history) = max (e.call.id + 1) (nextStream history) := rfl
      rw [hcons] at h
      obtain ⟨call, reply⟩ := e
      have hne : call.id ≠ n := by simp only at h; omega
      rw [← List.singleton_append, accepted_append, ih (by omega), List.append_nil]
      cases call with
      | accept m xs =>
          have hne' : m ≠ n := hne
          simp [accepted, Exchange.op, HandleOp.usesOf, hne']
      | stream | finish | interim => simp [accepted, Exchange.op, HandleOp.usesOf]

theorem transcribe_ok (h : NeverFails engine.backend) {m out : MonoPcm}
    (hfree : w.active < engine.limits.maxConcurrent)
    (hvalid : engine.limits.audio.validatePcm m = .ok ())
    (hout : m.resample engineSampleRate = .ok out) :
    ∃ text w', (engine.transcribe m .live).run w = .ok text w' ∧ ∀ f, TextOf engine.backend f →
    text = f out.samples := by
  generalize hn : nextStream w.history = n
  obtain ⟨created, hcreated⟩ := h w.history (.stream n)
  generalize hw₁ : w.observe.hold.exchanged (.stream n) (.ok created) = w₁
  obtain ⟨given, hgiven⟩ := h w₁.history (.accept n out.samples)
  generalize hw₂ : (w₁.exchanged (.accept n out.samples) (.ok given)).observe = w₂
  obtain ⟨text, htext⟩ := h w₂.history (.finish n)
  refine ⟨text, (w₂.exchanged (.finish n) (.ok text)).observe.release, ?_, fun f hf => ?_⟩
  · have hstream :=
      run_openStream_ok (w := w.observe.hold) (by rw [← hn] at hcreated; exact hcreated)
    rw [show nextStream w.observe.hold.history = n from hn, hw₁] at hstream
    have haccept := run_invoke_ok hgiven
    have hcheck := run_ensureActive_live (w₁.exchanged (.accept n out.samples) (.ok given))
    rw [hw₂] at hcheck
    rw [SttEngine.transcribe, run_bind_of_ok (run_ensureActive_live w),
      run_bind_of_ok (run_acquire_ok (w := w.observe) hfree), run_ending, hvalid, hout]
    rw [show audioError (.ok () : Except AudioError Unit) = .ok () from rfl,
      show audioError (.ok out : Except AudioError MonoPcm) = .ok out from rfl,
      run_bind_of_ok (run_fromExcept_ok _ _), run_bind_of_ok (run_fromExcept_ok _ _),
        run_bind_of_ok hstream,
      run_bind_of_ok haccept, run_bind_of_ok hcheck, run_bind_of_ok (run_invoke_ok htext),
      run_bind_of_ok (run_ensureActive_live _)]
    rfl
  · have hhistory : w₂.history =
        w.history ++ [⟨.stream n, .ok created⟩, ⟨.accept n out.samples, .ok given⟩] := by
      rw [← hw₂, ← hw₁]
      exact List.append_assoc _ _ _
    have hanswer := htext.symm.trans (hf w₂.history n)
    rw [hhistory, accepted_append, accepted_fresh hn.le, List.nil_append] at hanswer
    cases hanswer
    simp [accepted, Exchange.op, HandleOp.usesOf]

theorem transcribe_eq_ok {m : MonoPcm} {context : RequestContext} {text : String} {w' : World}
    (h : (engine.transcribe m context).run w = .ok text w') :
    ∃ out, m.resample engineSampleRate = .ok out := by
  rw [SttEngine.transcribe] at h
  obtain ⟨_, _, _, h⟩ := run_bind_ok h
  obtain ⟨_, _, _, h⟩ := run_bind_ok h
  rw [run_ending] at h
  split at h
  case h_2 => cases h
  case h_1 hbody =>
    obtain ⟨_, _, _, hbody⟩ := run_bind_ok hbody
    obtain ⟨out, _, hresample, _⟩ := run_bind_ok hbody
    exact ⟨out, audioError_eq_ok (run_fromExcept_eq_ok hresample).1⟩

theorem fits_of_resample {m out : MonoPcm} (hne : m.sampleRate ≠ engineSampleRate)
    (h : m.resample engineSampleRate = .ok out) : Fits engineSampleRate m.samples.length := by
  by_contra hfit
  obtain ⟨e, he⟩ := outputLength_error (s := m.sampleRate) hfit
  rw [MonoPcm.resample, validateRate_ok (by decide)] at h
  simp only [bind, Except.bind, if_neg (Ne.symm hne), he] at h
  cases h

theorem finish_text_of_no_end {f : List ℚ → String} (hf : TextOf engine.backend f)
    (hr : rate ∈ supportedSampleRates) {first : Nat} {reply : Except SttError String}
    (hfirst : nextStream w.history = first)
    (hopened : w₀.history = w.history ++ [⟨.stream first, reply⟩]) {s t : StreamingSession}
    {updates : List Transcript} {transcript : Transcript}
    (hpushes : (collect (StreamingSession.pushPcm16 engine .live) pushes).run
      (opened engine rate first w₀) = .ok updates s)
    (hend : .ended ∉ engine.detector.events (framesOf rate pushes.flatten))
    (hfinish : (StreamingSession.finish engine .live).run s = .ok transcript t) :
    transcript = ⟨.final, f (converted rate pushes.flatten)⟩ := by
  obtain ⟨_, _, htracks, c, hcanonical, hsame⟩ :=
    pushes_sound hr (opened_tracks engine rate first w₀) pushes hpushes
  have hnext : nextStream w₀.history = first + 1 := by
    rw [hopened, nextStream_append, hfirst]
    simp [nextStream, BackendCall.id]
  obtain ⟨log, hrun⟩ := run_processFrames_eq_ok (s := opened engine rate first w₀)
    (framesOf_bounds rate pushes.flatten) hnext hcanonical
  obtain ⟨hstream, hgiven⟩ := hrun.accepted_of_no_end (List.count_eq_zero.mpr hend)
  obtain ⟨_, log', hclose⟩ := run_finish_eq_ok htracks.residual_length_lt hfinish
  obtain ⟨_, out, _, _, hout⟩ :=
    recording_of_session hr (opened_tracks engine rate first w₀) hpushes hfinish
  have hsplit := blocks_flatten_append vadFrame (converted rate pushes.flatten)
  rw [← htracks.residual] at hsplit
  have hslast : s.stream = first := hsame.stream.trans hstream
  have haudio : (s.currentHasAudio || decide (s.residual ≠ [])) = true := by
    by_cases hres : s.residual = []
    · have hflat : (framesOf rate pushes.flatten).flatten ≠ [] := by
        rw [hres, List.append_nil] at hsplit
        rw [framesOf, hsplit, ← hout]
        exact out.samples_ne_nil
      rw [hsame.currentHasAudio, hrun.hasAudio.mpr (.inl (by rw [hstream, hgiven]; exact hflat))]
      rfl
    · simp [hres]
  obtain ⟨drained, hdrained, hasked⟩ := hclose.asked haudio
  have hhistory : s.world.history = w.history ++ [⟨.stream first, reply⟩] ++ log := by
    rw [hsame.world.history, hrun.history, ← hopened]
    rfl
  have hanswer := hasked.symm.trans (hf _ _)
  have hall : accepted (s.world.history ++ drained) s.stream = converted rate pushes.flatten := by
    rw [accepted_append, hdrained, hhistory, hslast, accepted_append, accepted_append,
      accepted_fresh hfirst.le]
    refine Eq.trans ?_ hsplit
    rw [show accepted log first = (framesOf rate pushes.flatten).flatten from hgiven]
    rfl
  rw [hall] at hanswer
  exact Transcript.ext hclose.kind (Except.ok.inj hanswer)

/-- Batch and streaming recognition agree, on all recordings that streaming
can resample. -/
theorem batch_and_streaming_agree (engine : SttEngine) (rate : Nat)
    (hr : rate ∈ supportedSampleRates) (hnever : NeverFails engine.backend) (f : List ℚ → String)
    (hf : TextOf engine.backend f) (context : RequestContext)
    (hlive : ∀ t, context.cancelled t = false ∧ context.expired t = false) (w w' : World)
    (hfree : w.active < engine.limits.maxConcurrent)
    (hfree' : w'.active < engine.limits.maxConcurrent) (pushes : List (List UInt8))
    (hsizes : ∀ p ∈ pushes, p ≠ [] ∧ p.length ≤ engine.limits.maxChunkBytes)
    (hfit : rate = engineSampleRate → (pushes.flatten.length / 2 - 1) * engineSampleRate < 2 ^ 64) :
    ((∃ s₀ w₀ updates s transcript t, (engine.startStream rate context).run w = .ok s₀ w₀ ∧
      (collect (StreamingSession.pushPcm16 engine context) pushes).run s₀ = .ok updates s ∧
      (StreamingSession.finish engine context).run s = .ok transcript t) ↔
      ∃ m text w₁, MonoPcm.fromPcm16Le pushes.flatten rate engine.limits.audio = .ok m ∧
      (engine.transcribe m context).run w' = .ok text w₁) ∧
    ∀ s₀ w₀ updates s transcript t m text w₁, (engine.startStream rate context).run w = .ok s₀ w₀ →
    (collect (StreamingSession.pushPcm16 engine context) pushes).run s₀ = .ok updates s →
    .ended ∉ engine.detector.events (framesOf rate pushes.flatten) →
    (StreamingSession.finish engine context).run s = .ok transcript t →
    MonoPcm.fromPcm16Le pushes.flatten rate engine.limits.audio = .ok m →
    (engine.transcribe m context).run w' = .ok text w₁ → transcript = ⟨.final, text⟩ := by
  cases eq_live hlive
  refine ⟨⟨?_, ?_⟩, ?_⟩
  · rintro ⟨s₀, w₀, updates, s, transcript, t, hopen, hpushes, hfinish⟩
    obtain ⟨_, rfl, _⟩ := startStream_eq_ok hopen
    obtain ⟨m, out, hm, hout, _⟩ :=
      recording_of_session hr (opened_tracks engine rate _ w₀) hpushes hfinish
    obtain ⟨text, w₁, hrun, _⟩ := transcribe_ok hnever hfree' (validatePcm_of_fromPcm16Le hm) hout
    exact ⟨m, text, w₁, hm, hrun⟩
  · rintro ⟨m, text, w₁, hm, hrun⟩
    obtain ⟨_, hne, heven, hadmits, hrate, hsamples⟩ := MonoPcm.fromPcm16Le_eq_ok.mp hm
    obtain ⟨out, hout⟩ := transcribe_eq_ok hrun
    have hacc : Accepts rate engine.limits.audio pushes.flatten := by
      refine fun _ => ⟨hadmits, ?_⟩
      by_cases heq : rate = engineSampleRate
      · rw [decodePcm16_length]; exact hfit heq
      · rw [← hsamples]; exact fits_of_resample (hrate.symm ▸ heq) hout
    obtain ⟨w₀, hopen⟩ := startStream_ok hnever hr hfree
    obtain ⟨_, _, hhistory⟩ := startStream_eq_ok hopen
    obtain ⟨text₀, hopened⟩ := hhistory
    have hnext : nextStream w₀.history = nextStream w.history + 1 := by
      rw [hopened, nextStream_append]
      simp [nextStream, BackendCall.id]
    obtain ⟨updates, s, transcript, t, hpushes, hfinish⟩ :=
      session_total hnever hr hnext pushes hsizes hne heven hacc
    exact ⟨_, w₀, updates, s, transcript, t, hopen, hpushes, hfinish⟩
  · intro s₀ w₀ updates s transcript t m text w₁ hopen hpushes hend hfinish hm hrun
    obtain ⟨_, rfl, text₀, hopened⟩ := startStream_eq_ok hopen
    obtain ⟨_, out, hm', hout, hsamples⟩ :=
      recording_of_session hr (opened_tracks engine rate _ w₀) hpushes hfinish
    cases hm.symm.trans hm'
    obtain ⟨text', w₂, hrun', htext⟩ :=
      transcribe_ok hnever hfree' (validatePcm_of_fromPcm16Le hm) hout
    cases hrun.symm.trans hrun'
    rw [finish_text_of_no_end hf hr rfl hopened hpushes hend hfinish, htext f hf, hsamples]

end

/-- One sample, in two frames. -/
theorem batch_and_streaming_agree_on_a_sample :
    (∃ s₀ w₀ updates s transcript t,
      (defaultEngine.startStream 8000 .live).run ⟨[], 0, 0, 0⟩ = .ok s₀ w₀ ∧
      (collect (StreamingSession.pushPcm16 defaultEngine .live) [[1], [2]]).run s₀ = .ok updates s ∧
      (StreamingSession.finish defaultEngine .live).run s = .ok transcript t) ↔
      ∃ m text w₁, MonoPcm.fromPcm16Le [[1], [2]].flatten 8000 defaultEngine.limits.audio = .ok m ∧
    (defaultEngine.transcribe m .live).run ⟨[], 0, 0, 0⟩ = .ok text w₁ :=
  (batch_and_streaming_agree defaultEngine 8000 (by decide) (fun _ _ => ⟨"word", rfl⟩)
    (fun _ => "word")
    (fun _ _ => rfl) .live (fun _ => ⟨rfl, rfl⟩) ⟨[], 0, 0, 0⟩ ⟨[], 0, 0, 0⟩ (by decide) (by decide)
      [[1], [2]] (by decide)
    (by decide)).1

def longLimits : SttLimits := ⟨1, 2 ^ 52, ⟨2 ^ 52, 2 ^ 47, by decide, by decide⟩⟩

def longEngine : SttEngine := wordEngine longLimits (by decide) (by decide)

/-- A frame that only the resampler refuses leaves the detector alone. -/
theorem push_beyond_fits (engine : SttEngine) (rate first : Nat) (w₀ : World) {bytes : List UInt8}
    (hne : bytes ≠ []) (hlen : bytes.length ≤ engine.limits.maxChunkBytes)
    (hadmits : engine.limits.audio.Admits bytes.length rate (bytes.length / 2))
    (hfit : ¬ Fits engineSampleRate (decodePcm16 bytes).length) :
    ∃ e s,
      (StreamingSession.pushPcm16 engine .live bytes).run (opened engine rate first w₀) =
      .error e s ∧ s.vad = engine.detector ∧ s.world.history = w₀.history := by
  have hguard : ¬ ((opened engine rate first w₀).finished = true ∨ bytes = [] ∨
      engine.limits.maxChunkBytes < bytes.length) := by
    simp [opened, hne, hlen]
  have hdecode : (IncrementalPcm16.push bytes).run (opened engine rate first w₀).observed.decoder =
      .ok (decodePcm16 bytes) (IncrementalPcm16.after rate engine.limits.audio bytes) :=
    IncrementalPcm16.run_push hadmits
  have hfit' :
      ¬ Fits engineSampleRate
      ([] ++ ((decodePcm16 bytes).map F32.finite).map F32.value).length := by
    rwa [F32.map_value_finite, List.nil_append]
  obtain ⟨e, r, hrefused⟩ := StreamingResampler.run_push_error (s := rate) hfit'
  have hresample : (StreamingResampler.push ((decodePcm16 bytes).map .finite)).run
      ((opened engine rate first w₀).observed.setDecoder
        (IncrementalPcm16.after rate engine.limits.audio bytes)).resampler =
        .error e r := hrefused
  have hne' : decodePcm16 bytes ≠ [] := fun hnil => hfit (by rw [hnil]; exact Fits.zero _)
  rw [StreamingSession.pushPcm16, run_bind_of_ok (run_gets _ _),
    run_bind_of_ok (run_failIf_neg hguard _ _),
    run_bind_of_ok (run_check_live _), run_bind_of_ok (run_zoom_of_ok hdecode), if_neg hne']
  exact ⟨_, _, run_bind_of_error (run_zoom_of_error hresample), rfl, rfl⟩

/-- Two to the fifty-first samples of silence at the engine's rate: batch
recognition hears them, streaming refuses them before any frame is processed. -/
theorem long_recording_is_only_heard_in_batch :
    (∃ m text w₁,
      MonoPcm.fromPcm16Le (List.replicate (2 ^ 52) 0) 16000 longEngine.limits.audio = .ok m ∧
      (longEngine.transcribe m .live).run ⟨[], 0, 0, 0⟩ = .ok text w₁) ∧
    (∃ s₀ w₀ e s, (longEngine.startStream 16000 .live).run ⟨[], 0, 0, 0⟩ = .ok s₀ w₀ ∧
      (StreamingSession.pushPcm16 longEngine .live (List.replicate (2 ^ 52) 0)).run s₀ =
      .error e s ∧ s.vad = s₀.vad ∧ s.world.history = s₀.world.history) := by
  have hnever : NeverFails longEngine.backend := fun _ _ => ⟨"word", rfl⟩
  have hlen : (List.replicate (2 ^ 52) (0 : UInt8)).length = 2 ^ 52 := List.length_replicate
  have hne : List.replicate (2 ^ 52) (0 : UInt8) ≠ [] :=
    List.ne_nil_of_length_pos (by rw [hlen]; decide)
  have hadmits : longEngine.limits.audio.Admits (List.replicate (2 ^ 52) (0 : UInt8)).length 16000
      ((List.replicate (2 ^ 52) (0 : UInt8)).length / 2) := by
    rw [hlen]
    decide
  generalize List.replicate (2 ^ 52) (0 : UInt8) = bytes at hlen hne hadmits
  have hdecoded : (decodePcm16 bytes).length = 2 ^ 51 := by
    rw [decodePcm16_length, hlen]
    norm_num
  constructor
  · have hnonempty : decodePcm16 bytes ≠ [] := List.ne_nil_of_length_pos (by rw [hdecoded]; decide)
    generalize hm :
      (⟨16000, decodePcm16 bytes, by decide, hnonempty, decodePcm16_in_range _⟩ : MonoPcm) = m
    have hpcm : MonoPcm.fromPcm16Le bytes 16000 longEngine.limits.audio = .ok m := by
      refine MonoPcm.fromPcm16Le_eq_ok.mpr
        ⟨by decide, hne, by rw [hlen]; norm_num, hadmits, ?_, ?_⟩ <;> rw [← hm]
    have hout : m.resample engineSampleRate = .ok m := by
      rw [← hm, MonoPcm.resample, validateRate_ok (by decide)]
      rfl
    obtain ⟨text, w₁, hrun, _⟩ :=
      transcribe_ok (w := ⟨[], 0, 0, 0⟩) hnever (by decide) (validatePcm_of_fromPcm16Le hpcm) hout
    exact ⟨m, text, w₁, hpcm, hrun⟩
  · obtain ⟨w₀, hopen⟩ :=
      startStream_ok (w := ⟨[], 0, 0, 0⟩) hnever
        (show 16000 ∈ supportedSampleRates by decide) (by decide)
    obtain ⟨e, s, hpush, hvad, hhistory⟩ :=
      push_beyond_fits longEngine 16000 0 w₀ hne (by rw [hlen]; decide)
      hadmits (by rw [hdecoded]; decide)
    exact ⟨_, w₀, e, s, hopen, hpush, hvad, hhistory⟩

end ImpossibleVoice.Stt
