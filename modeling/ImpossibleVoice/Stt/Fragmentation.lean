import ImpossibleVoice.Stt.Framing

namespace ImpossibleVoice.Stt

open Lib Audio

theorem audioError_eq_ok {α : Type} {result : Except AudioError α} {a : α}
    (h : audioError result = .ok a) : result = .ok a := by
  cases result with
  | ok b => cases h; rfl
  | error e => cases h

def SttEngine.detector (engine : SttEngine) : EnergyVad :=
  ⟨engine.vad, engineSampleRate, 0, 0, 0, false⟩

theorem new_detector (engine : SttEngine) :
    EnergyVad.new engine.vad engineSampleRate = .ok engine.detector := by
  have h := engine.vad_ok
  unfold EnergyVad.new at h ⊢
  rw [validateRate_ok (by decide)] at h ⊢
  simp only [bind, Except.bind] at h ⊢
  split
  · rename_i hbad
    rw [if_pos hbad] at h
    cases h
  · rfl

def opened (engine : SttEngine) (rate stream : Nat) (world : World) : StreamingSession :=
  ⟨stream, IncrementalPcm16.after rate engine.limits.audio [],
    StreamingResampler.after rate engineSampleRate [],
    engine.detector, [], "", none, false, false, world⟩

theorem opened_tracks (engine : SttEngine) (rate stream : Nat) (world : World) :
    Tracks rate engine.limits.audio [] (opened engine rate stream world) := by
  refine ⟨rfl, rfl, ?_, rfl⟩
  rw [converted, show decodePcm16 [] = [] from rfl, resampled_nil, remainder_of_lt (by decide)]
  rfl

theorem startStream_eq_ok {engine : SttEngine} {rate : Nat} {context : RequestContext}
    {w w' : World} {s : StreamingSession} (h : (engine.startStream rate context).run w = .ok s w') :
    rate ∈ supportedSampleRates ∧ s = opened engine rate (nextStream w.history) w' ∧
    ∃ text, w'.history = w.history ++ [⟨.stream (nextStream w.history), .ok text⟩] := by
  rw [SttEngine.startStream] at h
  obtain ⟨_, _, hcheck, h⟩ := run_bind_ok h
  cases run_ensureActive_eq_ok hcheck
  obtain ⟨_, w₁, hacquire, h⟩ := run_bind_ok h
  obtain ⟨_, rfl⟩ := run_acquire_eq_ok hacquire
  obtain ⟨stream, w₂, hstream, h⟩ := run_bind_ok (run_endingOnError_eq_ok h)
  obtain ⟨rfl, text, rfl⟩ := run_openStream_eq_ok hstream
  obtain ⟨decoder, _, hrun, h⟩ := run_bind_ok h
  obtain ⟨hdecoder, rfl⟩ := run_fromExcept_eq_ok hrun
  obtain ⟨resampler, _, hrun, h⟩ := run_bind_ok h
  obtain ⟨hresampler, rfl⟩ := run_fromExcept_eq_ok hrun
  rw [new_detector, audioError, Except.mapError, run_bind_of_ok (run_fromExcept_ok _ _),
    run_bind_of_ok (EStateM.run_get _)] at h
  have hnew := audioError_eq_ok hdecoder
  have hrate : rate ∈ supportedSampleRates := by
    cases hv : validateRate rate with
    | ok u => exact validateRate_eq_ok hv
    | error e => rw [IncrementalPcm16.new, hv] at hnew; cases hnew
  have hnew' := audioError_eq_ok hresampler
  rw [IncrementalPcm16.new_ok hrate] at hnew
  rw [StreamingResampler.new_ok hrate (by decide)] at hnew'
  cases hnew
  cases hnew'
  cases h
  exact ⟨hrate, rfl, text, rfl⟩

theorem eq_live {context : RequestContext}
    (h : ∀ t, context.cancelled t = false ∧ context.expired t = false) : context = .live := by
  cases context
  simp only [RequestContext.live, RequestContext.mk.injEq]
  exact ⟨funext fun t => (h t).1, funext fun t => (h t).2⟩

/-- The bytes taken in decide what `finish` returns. -/
theorem finish_agrees {engine : SttEngine} {rate : Nat} {limits : AudioLimits} {taken : List UInt8}
    {s t u : StreamingSession} {transcript : Transcript} (hs : Tracks rate limits taken s)
    (ht : Tracks rate limits taken t) (hsame : SameCore s t)
    (h : (StreamingSession.finish engine .live).run s = .ok transcript u) :
    ∃ v, (StreamingSession.finish engine .live).run t = .ok transcript v := by
  have hfull : Same True s t :=
    { hsame with
      framing := fun _ => ⟨hs.decoder.trans ht.decoder.symm, hs.residual.trans ht.residual.symm⟩ }
  obtain ⟨v, hv, _⟩ := finish_simulates engine trivial s t hfull transcript u h
  exact ⟨v, hv⟩

/-- Two cuttings of the same bytes into frames: when one run of pushes
returns, so does the other, with the same updates and the same outcome of
`finish`. -/
theorem pushes_agree {engine : SttEngine} {rate : Nat} (hr : rate ∈ supportedSampleRates)
    {s₀ s : StreamingSession} (htracks : Tracks rate engine.limits.audio [] s₀)
    {pushes pushes' : List (List UInt8)} (hsplit : pushes.flatten = pushes'.flatten)
    (hsizes : ∀ p ∈ pushes', p ≠ [] ∧ p.length ≤ engine.limits.maxChunkBytes)
    {updates : List Transcript}
    (h : (collect (StreamingSession.pushPcm16 engine .live) pushes).run s₀ = .ok updates s) :
    ∃ s', (collect (StreamingSession.pushPcm16 engine .live) pushes').run s₀ = .ok updates s' ∧
    ∀ transcript, (∃ t, (StreamingSession.finish engine .live).run s = .ok transcript t) ↔
      ∃ t, (StreamingSession.finish engine .live).run s' = .ok transcript t := by
  obtain ⟨_, hacc, hs, t, ht, hsame⟩ := pushes_sound hr htracks pushes h
  rw [hsplit] at hacc hs ht
  obtain ⟨s', hs', htracks', hsame'⟩ := pushes_complete hr htracks pushes' hsizes hacc ht
  refine ⟨s', hs', fun transcript => ⟨?_, ?_⟩⟩
  · rintro ⟨u, hu⟩
    exact finish_agrees hs htracks' (hsame.trans hsame') hu
  · rintro ⟨u, hu⟩
    exact finish_agrees htracks' hs (hsame.trans hsame').symm hu

/-- Realtime transcription does not depend on transport fragmentation. -/
theorem streaming_results_are_invariant_to_transport_chunk_splits (engine : SttEngine)
    (rate : Nat) (context : RequestContext)
    (hlive : ∀ t, context.cancelled t = false ∧ context.expired t = false) (w w₀ : World)
    (s₀ : StreamingSession) (hopen : (engine.startStream rate context).run w = .ok s₀ w₀)
    (pushes pushes' : List (List UInt8)) (hsplit : pushes.flatten = pushes'.flatten)
    (hsizes : ∀ p ∈ pushes, p ≠ [] ∧ p.length ≤ engine.limits.maxChunkBytes)
    (hsizes' : ∀ p ∈ pushes', p ≠ [] ∧ p.length ≤ engine.limits.maxChunkBytes) :
    (∀ updates s,
      (collect (StreamingSession.pushPcm16 engine context) pushes).run s₀ = .ok updates s →
      ∃ s', (collect (StreamingSession.pushPcm16 engine context) pushes').run s₀ = .ok updates s' ∧
      ∀ transcript, (∃ t, (StreamingSession.finish engine context).run s = .ok transcript t) ↔
      ∃ t, (StreamingSession.finish engine context).run s' = .ok transcript t) ∧
    ((∃ updates s,
      (collect (StreamingSession.pushPcm16 engine context) pushes).run s₀ = .ok updates s) ↔
      ∃ updates s,
      (collect (StreamingSession.pushPcm16 engine context) pushes').run s₀ = .ok updates s) := by
  cases eq_live hlive
  obtain ⟨hr, rfl, _⟩ := startStream_eq_ok hopen
  have htracks := opened_tracks engine rate (nextStream w.history) w₀
  refine ⟨fun updates s h => pushes_agree hr htracks hsplit hsizes' h, ?_, ?_⟩
  · rintro ⟨updates, s, h⟩
    obtain ⟨s', hs', _⟩ := pushes_agree hr htracks hsplit hsizes' h
    exact ⟨updates, s', hs'⟩
  · rintro ⟨updates, s, h⟩
    obtain ⟨s', hs', _⟩ := pushes_agree hr htracks hsplit.symm hsizes h
    exact ⟨updates, s', hs'⟩

def wordEngine (limits : SttLimits) (hc : limits.maxConcurrent ≠ 0)
    (hm : limits.maxChunkBytes ≠ 0) : SttEngine :=
  ⟨fun _ _ => .ok "word", limits, .default fun _ => true, hc,
    hm, by rw [EnergyVad.new_default _ rfl]; rfl⟩

def defaultEngine : SttEngine := wordEngine .default (by decide) (by decide)

def briefEngine : SttEngine :=
  ⟨fun _ _ => .ok "word", .default,
    .brief, by decide, by decide, by rw [EnergyVad.new_brief rfl]; rfl⟩

theorem briefEngine_opens : ∃ w₀, (briefEngine.startStream 16000 .live).run ⟨[], 0, 0, 0⟩ =
    .ok (opened briefEngine 16000 0 w₀) w₀ := by
  refine ⟨⟨[⟨.stream 0, .ok "word"⟩], 2, 1, 2⟩, ?_⟩
  have hdetector := new_detector briefEngine
  rw [SttEngine.startStream, run_bind_of_ok (run_ensureActive_live _),
    run_bind_of_ok (run_acquire_ok (w := World.observe ⟨[], 0, 0, 0⟩) (by decide)),
      run_endingOnError, hdetector]
  rfl

theorem defaultEngine_opens : ∃ w₀, (defaultEngine.startStream 16000 .live).run ⟨[], 0, 0, 0⟩ =
    .ok (opened defaultEngine 16000 0 w₀) w₀ := by
  refine ⟨⟨[⟨.stream 0, .ok "word"⟩], 2, 1, 2⟩, ?_⟩
  have hdetector := new_detector defaultEngine
  rw [SttEngine.startStream, run_bind_of_ok (run_ensureActive_live _),
    run_bind_of_ok (run_acquire_ok (w := World.observe ⟨[], 0, 0, 0⟩) (by decide)),
      run_endingOnError, hdetector]
  rfl

/-- A sample cut in two. -/
theorem streaming_results_are_invariant_to_a_split_sample :
    ∃ s₀ w₀, (defaultEngine.startStream 16000 .live).run ⟨[], 0, 0, 0⟩ = .ok s₀ w₀ ∧
    ((∃ updates s,
      (collect (StreamingSession.pushPcm16 defaultEngine .live) [[1], [2]]).run s₀ =
      .ok updates s) ↔
      ∃ updates s,
      (collect (StreamingSession.pushPcm16 defaultEngine .live) [[1, 2]]).run s₀ =
      .ok updates s) := by
  obtain ⟨w₀, hopen⟩ := defaultEngine_opens
  exact ⟨_, w₀, hopen,
    (streaming_results_are_invariant_to_transport_chunk_splits defaultEngine 16000 .live
    (fun _ => ⟨rfl, rfl⟩) ⟨[], 0, 0, 0⟩ w₀ _ hopen [[1], [2]] [[1, 2]] rfl (by decide)
      (by decide)).2⟩

end ImpossibleVoice.Stt
