import ImpossibleVoice.Stt.Utterances

namespace ImpossibleVoice.Stt

open Lib Audio

def NeverFails (backend : Backend) : Prop := ∀ history call, ∃ text, backend history call = .ok text

section

variable {backend : Backend}

theorem invoke_total (h : NeverFails backend) (call : BackendCall) :
    Total (invoke backend call) := by
  intro w
  obtain ⟨text, htext⟩ := h w.history call
  exact ⟨text, _, run_invoke_ok htext⟩

theorem openStream_total (h : NeverFails backend) : Total (openStream backend) :=
  (Total.gets _).bind fun _ => (invoke_total h _).bind fun _ => Total.pure _

theorem onWorld_total {α : Type} {m : EStateM SttError World α} (h : Total m) : Total (onWorld m) :=
  h.zoom _ _ _

theorem check_total : Total (onWorld (ensureActive .live)) :=
  fun s => ⟨(), s.observed, run_check_live s⟩

theorem accept_total (h : NeverFails backend) (samples : List ℚ) :
    Total (StreamingSession.accept backend samples) :=
  (Total.gets _).bind fun _ => (onWorld_total (invoke_total h _)).bind fun _ => Total.modify _

theorem processVad_total {samples : List ℚ} (hne : samples ≠ []) (hlen : samples.length < 2 ^ 32) :
    Total (StreamingSession.processVad samples) := by
  refine Total.zoom (fun vad => ?_) _ _ _
  exact ⟨_, _, EnergyVad.run_process vad hne hlen⟩

theorem processFrame_total (h : NeverFails backend) {frame : List ℚ} (hne : frame ≠ [])
    (hlen : frame.length < 2 ^ 32) : Total (StreamingSession.processFrame backend .live frame) := by
  refine check_total.bind fun _ => (accept_total h frame).bind fun _ =>
    (processVad_total hne hlen).bind fun event => ?_
  split
  · refine (Total.gets _).bind fun _ => (onWorld_total (invoke_total h _)).bind fun _ =>
      check_total.bind fun _ => ?_
    refine (Total.modify _).bind fun _ => (onWorld_total (openStream_total h)).bind fun _ => ?_
    exact (Total.modify _).bind fun _ => Total.pure _
  · refine (Total.gets _).bind fun _ => (onWorld_total (invoke_total h _)).bind fun _ =>
      (Total.gets _).bind fun _ => ?_
    split
    · exact (Total.modify _).bind fun _ => Total.pure _
    · exact Total.pure _

theorem drainResidual_total (h : NeverFails backend) {s : StreamingSession}
    (hlen : s.residual.length < 2 ^ 32) :
    ∃ t, (StreamingSession.drainResidual backend).run s = .ok () t := by
  rw [StreamingSession.drainResidual, run_bind_of_ok (run_gets _ _)]
  by_cases hres : s.residual = []
  · rw [if_pos hres]
    exact ⟨s, rfl⟩
  · rw [if_neg hres]
    have htotal :=
      (accept_total h s.residual).bind fun _ => (processVad_total hres hlen).bind fun _ =>
      Total.modify (ε := SttError) (StreamingSession.setResidual [])
    obtain ⟨_, t, ht⟩ := htotal s
    exact ⟨t, ht⟩

theorem lastText_total (h : NeverFails backend) {s : StreamingSession}
    (htext : s.currentHasAudio = true ∨ s.lastFinal ≠ none) :
    ∃ text t, (StreamingSession.lastText backend).run s = .ok text t := by
  rw [StreamingSession.lastText, run_bind_of_ok (run_gets _ _)]
  by_cases haudio : s.currentHasAudio = true
  · rw [if_pos haudio]
    exact ((Total.gets _).bind fun _ => onWorld_total (invoke_total h _)) s
  · obtain ⟨text, hlast⟩ := Option.ne_none_iff_exists'.mp (htext.resolve_left haudio)
    rw [if_neg haudio, run_bind_of_ok (run_gets _ _), run_bind_of_ok (EStateM.run_modify _ _),
      hlast]
    exact ⟨text, _, rfl⟩

theorem finish_total {engine : SttEngine} (h : NeverFails engine.backend) {s : StreamingSession}
    {m : MonoPcm} (hfinished : s.finished = false) (hm : s.decoder.finish = .ok m)
    (hlen : s.residual.length < 2 ^ 32)
    (htext : s.residual ≠ [] ∨ s.currentHasAudio = true ∨ s.lastFinal ≠ none) :
    ∃ transcript t, (StreamingSession.finish engine .live).run s = .ok transcript t := by
  obtain ⟨drained, hdrain⟩ := drainResidual_total h (s := s.observed) hlen
  obtain ⟨_, hlast, haudio, _⟩ := run_drainResidual_eq_ok (s := s.observed) hlen hdrain
  have htext' : drained.setFinished.currentHasAudio = true ∨
      drained.setFinished.lastFinal ≠ none := by
    show drained.currentHasAudio = true ∨ drained.lastFinal ≠ none
    rw [haudio, hlast]
    rcases htext with hres | hhas | hsome
    · exact .inl (by rw [show s.observed.residual = s.residual from rfl]; simp [hres])
    · exact .inl (by rw [show s.observed.currentHasAudio = s.currentHasAudio from rfl, hhas]; rfl)
    · exact .inr hsome
  obtain ⟨text, last, hlastText⟩ := lastText_total h htext'
  have hbody : (StreamingSession.finishBody engine .live).run s =
      .ok ⟨.final, text⟩ last.observed := by
    rw [StreamingSession.finishBody, run_bind_of_ok (run_gets _ _),
      run_bind_of_ok (run_failIf_neg (by simp [hfinished]) _ _), run_bind_of_ok (run_check_live s),
      run_bind_of_ok (run_gets _ _), show s.observed.decoder = s.decoder from rfl, hm, audioError,
        Except.mapError,
      run_bind_of_ok (run_fromExcept_ok _ _), run_bind_of_ok hdrain,
        run_bind_of_ok (EStateM.run_modify _ _),
      run_bind_of_ok hlastText, run_bind_of_ok (run_check_live last)]
    rfl
  exact ⟨⟨.final, text⟩, _, by rw [StreamingSession.finish, run_ending, hbody]⟩

end

section

variable {engine : SttEngine} {rate : Nat} {w w₀ : World}

theorem startStream_ok (h : NeverFails engine.backend) (hr : rate ∈ supportedSampleRates)
    (hfree : w.active < engine.limits.maxConcurrent) :
    ∃ w',
      (engine.startStream rate .live).run w =
      .ok (opened engine rate (nextStream w.history) w') w' := by
  obtain ⟨text, htext⟩ := h w.history (.stream (nextStream w.history))
  have hstream := run_openStream_ok (w := w.observe.hold) htext
  have hacquire := run_acquire_ok (w := w.observe) hfree
  refine ⟨w.observe.hold.exchanged (.stream (nextStream w.history)) (.ok text), ?_⟩
  rw [SttEngine.startStream, run_bind_of_ok (run_ensureActive_live w), run_bind_of_ok hacquire,
    run_endingOnError, run_bind_of_ok hstream, IncrementalPcm16.new_ok hr,
      StreamingResampler.new_ok hr (by decide),
    new_detector]
  rfl

theorem converted_ne_nil {bytes : List UInt8} (h : decodePcm16 bytes ≠ []) :
    converted rate bytes ≠ [] := by
  intro hnil
  have hlen := congrArg List.length hnil
  rw [converted, resampled_length, List.length_nil] at hlen
  exact h (List.length_eq_zero_iff.mp (gridLength_eq_zero.mp hlen))

/-- Every whole acceptable recording can be pushed and finished. -/
theorem session_total (h : NeverFails engine.backend) (hr : rate ∈ supportedSampleRates)
    {first : Nat} (hnext : nextStream w₀.history = first + 1) (pushes : List (List UInt8))
    (hsizes : ∀ p ∈ pushes, p ≠ [] ∧ p.length ≤ engine.limits.maxChunkBytes)
    (hne : pushes.flatten ≠ []) (heven : pushes.flatten.length % 2 = 0)
    (hacc : Accepts rate engine.limits.audio pushes.flatten) :
    ∃ updates s transcript t,
      (collect (StreamingSession.pushPcm16 engine .live) pushes).run (opened engine rate first w₀) =
      .ok updates s ∧ (StreamingSession.finish engine .live).run s = .ok transcript t := by
  have hbounds := framesOf_bounds rate pushes.flatten
  obtain ⟨updates, c, hcanonical⟩ := Total.collect
    (fun frame hf => processFrame_total h (hbounds frame hf).1 (hbounds frame hf).2)
      (opened engine rate first w₀)
  obtain ⟨s, hs, htracks, hsame⟩ :=
    pushes_complete hr (opened_tracks engine rate first w₀) pushes hsizes hacc hcanonical
  obtain ⟨log, hrun⟩ :=
    run_processFrames_eq_ok (s := opened engine rate first w₀) hbounds hnext hcanonical
  have hdecoded : decodePcm16 pushes.flatten ≠ [] :=
    fun hnil => hne ((decodePcm16_eq_nil heven).mp hnil)
  have hm : s.decoder.finish =
      .ok ⟨rate, decodePcm16 pushes.flatten, hr, hdecoded, decodePcm16_in_range _⟩ := by
    rw [htracks.decoder, IncrementalPcm16.finish_after, if_neg (not_not.mpr heven)]
    exact MonoPcm.new_finite hr hdecoded (decodePcm16_in_range _)
  have htext : s.residual ≠ [] ∨ s.currentHasAudio = true ∨ s.lastFinal ≠ none := by
    by_cases hres : s.residual = []
    · right
      rw [← hsame.currentHasAudio, ← hsame.lastFinal]
      have hsplit := blocks_flatten_append vadFrame (converted rate pushes.flatten)
      rw [← htracks.residual, hres, List.append_nil] at hsplit
      exact hrun.has_text (hsplit ▸ converted_ne_nil hdecoded)
    · exact .inl hres
  obtain ⟨transcript, t, ht⟩ := finish_total h htracks.finished hm htracks.residual_length_lt htext
  exact ⟨updates, s, transcript, t, hs, ht⟩

end

def twoFrames : List UInt8 := List.replicate 1282 1

theorem length_twoFrames : twoFrames.length = 1282 := List.length_replicate

theorem decode_twoFrames : decodePcm16 twoFrames = List.replicate 641 (decodeSample 1 1) := by
  decide +kernel

theorem briefEngine_ends_once (x : ℚ) :
    (briefEngine.detector.events (blocks vadFrame (List.replicate 641 x))).count .ended = 1 := by
  have hblocks : blocks vadFrame (List.replicate 641 x) =
      [List.replicate 320 x, List.replicate 320 x] := by
    rw [vadFrame, blocks_of_le (by rw [List.length_replicate]; decide), List.take_replicate,
      List.drop_replicate,
      blocks_of_le (by rw [List.length_replicate]; decide), List.take_replicate,
        List.drop_replicate,
      blocks_of_lt (by rw [List.length_replicate]; decide)]
    rfl
  have hopens : briefEngine.detector.voiced (List.replicate 320 x) = true := rfl
  rw [hblocks, EnergyVad.events, EnergyVad.events, EnergyVad.events, EnergyVad.step, hopens,
    List.length_replicate, EnergyVad.step, List.length_replicate]
  -- the second frame closes the utterance either way
  generalize EnergyVad.voiced _ (List.replicate 320 x) = voiced
  cases voiced <;> decide +kernel

theorem briefEngine_hears {w w₀ : World} {s₀ : StreamingSession}
    (hopen : (briefEngine.startStream 16000 .live).run w = .ok s₀ w₀) :
    ∃ updates s transcript t,
      (collect (StreamingSession.pushPcm16 briefEngine .live) [twoFrames]).run s₀ = .ok updates s ∧
    (StreamingSession.finish briefEngine .live).run s = .ok transcript t := by
  obtain ⟨hr, rfl, text, hhistory⟩ := startStream_eq_ok hopen
  have hnext : nextStream w₀.history = nextStream w.history + 1 := by
    rw [hhistory, nextStream_append]
    simp [nextStream, BackendCall.id]
  have hflat : [twoFrames].flatten = twoFrames := List.flatten_singleton
  refine session_total (fun _ _ => ⟨"word", rfl⟩) hr hnext [twoFrames] ?_ ?_ ?_ ?_
  · intro p hp
    rw [List.mem_singleton.mp hp, length_twoFrames]
    exact ⟨List.ne_nil_of_length_pos (by rw [length_twoFrames]; decide), by decide⟩
  · rw [hflat]
    exact List.ne_nil_of_length_pos (by rw [length_twoFrames]; decide)
  · rw [hflat, length_twoFrames]
  · rw [hflat, Accepts, decode_twoFrames, length_twoFrames, List.length_replicate]
    exact fun _ => ⟨by decide, by decide⟩

end ImpossibleVoice.Stt
