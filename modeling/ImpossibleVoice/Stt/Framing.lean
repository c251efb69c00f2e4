import ImpossibleVoice.Stt.Session
import Mathlib.Data.List.Induction

namespace ImpossibleVoice.Stt

open Lib Audio

structure SameWorld (v w : World) : Prop where
  history : v.history = w.history
  active : v.active = w.active

/-- Equal but for the time, the resampler and, unless `layers` holds, the
decoder and the residual. -/
structure Same (layers : Prop) (s t : StreamingSession) : Prop where
  stream : s.stream = t.stream
  vad : s.vad = t.vad
  lastInterim : s.lastInterim = t.lastInterim
  lastFinal : s.lastFinal = t.lastFinal
  currentHasAudio : s.currentHasAudio = t.currentHasAudio
  finished : s.finished = t.finished
  world : SameWorld s.world t.world
  framing : layers → s.decoder = t.decoder ∧ s.residual = t.residual

abbrev SameCore : StreamingSession → StreamingSession → Prop := Same False

theorem SameWorld.refl (w : World) : SameWorld w w := ⟨rfl, rfl⟩

theorem SameCore.refl (s : StreamingSession) : SameCore s s :=
  ⟨rfl, rfl, rfl, rfl, rfl, rfl, SameWorld.refl _, False.elim⟩

theorem Same.symm {layers : Prop} {s t : StreamingSession} (h : Same layers s t) :
    Same layers t s :=
  ⟨h.stream.symm, h.vad.symm, h.lastInterim.symm, h.lastFinal.symm, h.currentHasAudio.symm,
    h.finished.symm,
    ⟨h.world.history.symm, h.world.active.symm⟩,
      fun hl => ⟨(h.framing hl).1.symm, (h.framing hl).2.symm⟩⟩

theorem Same.trans {layers : Prop} {s t u : StreamingSession} (h : Same layers s t)
    (h' : Same layers t u) : Same layers s u :=
  ⟨h.stream.trans h'.stream, h.vad.trans h'.vad, h.lastInterim.trans h'.lastInterim,
    h.lastFinal.trans h'.lastFinal,
    h.currentHasAudio.trans h'.currentHasAudio, h.finished.trans h'.finished,
    ⟨h.world.history.trans h'.world.history, h.world.active.trans h'.world.active⟩,
    fun hl => ⟨(h.framing hl).1.trans (h'.framing hl).1, (h.framing hl).2.trans (h'.framing hl).2⟩⟩

theorem SameCore.observed (s : StreamingSession) : SameCore s s.observed :=
  ⟨rfl, rfl, rfl, rfl, rfl, rfl, ⟨rfl, rfl⟩, False.elim⟩

section

variable {backend : Backend} {context : RequestContext} {layers : Prop}

theorem invoke_simulates (call : BackendCall) :
    Simulates SameWorld (invoke backend call) (invoke backend call) := by
  refine Simulates.bind (Simulates.gets fun _ _ h => h.history) fun history => ?_
  refine Simulates.bind (Simulates.modify fun v w h => ?_) fun _ =>
    Simulates.fromExcept fun _ hr => hr
  exact ⟨congrArg (· ++ _) h.history, h.active⟩

theorem openStream_simulates : Simulates SameWorld (openStream backend) (openStream backend) := by
  refine Simulates.bind (Simulates.gets fun _ _ h => h.history) fun history => ?_
  exact Simulates.bind (invoke_simulates _) fun _ => Simulates.pure _

theorem ensureActive_simulates :
    Simulates SameWorld (ensureActive context) (ensureActive .live) := by
  intro v w h u v' hv
  exact ⟨w.observe,
    run_ensureActive_live w, by rw [run_ensureActive_eq_ok hv]; exact ⟨h.history, h.active⟩⟩

theorem onWorld_simulates {α : Type} {m n : EStateM SttError World α}
    (h : Simulates SameWorld m n) : Simulates (Same layers) (onWorld m) (onWorld n) :=
  Simulates.zoom (fun _ _ hs => hs.world) (fun _ _ _ _ hw hs => { hs with world := hw }) id id h

theorem accept_simulates (samples : List ℚ) :
    Simulates (Same layers) (StreamingSession.accept backend samples)
      (StreamingSession.accept backend samples) := by
  refine Simulates.bind (Simulates.gets fun _ _ h => h.stream) fun stream => ?_
  refine Simulates.bind (onWorld_simulates (invoke_simulates _)) fun _ => ?_
  exact Simulates.modify fun _ _ h => { h with currentHasAudio := rfl }

theorem processVad_simulates (samples : List ℚ) :
    Simulates (Same layers) (StreamingSession.processVad samples)
      (StreamingSession.processVad samples) :=
  Simulates.zoom (fun _ _ h => h.vad) (fun _ _ _ _ hv h => { h with vad := hv })
    _ _ (Simulates.refl _)

theorem processFrame_simulates (frame : List ℚ) :
    Simulates (Same layers) (StreamingSession.processFrame backend context frame)
      (StreamingSession.processFrame backend .live frame) := by
  refine Simulates.bind (onWorld_simulates ensureActive_simulates) fun _ => ?_
  refine Simulates.bind (accept_simulates frame) fun _ => ?_
  refine Simulates.bind (processVad_simulates frame) fun transition => ?_
  split
  · refine Simulates.bind (Simulates.gets fun _ _ h => h.stream) fun stream => ?_
    refine Simulates.bind (onWorld_simulates (invoke_simulates _)) fun text => ?_
    refine Simulates.bind (onWorld_simulates ensureActive_simulates) fun _ => ?_
    refine Simulates.bind (Simulates.modify fun _ _ h => { h with lastFinal := rfl }) fun _ => ?_
    refine Simulates.bind (onWorld_simulates openStream_simulates) fun next => ?_
    exact Simulates.bind
      (Simulates.modify fun _ _ h =>
        { h with stream := rfl, currentHasAudio := rfl, lastInterim := rfl })
      fun _ => Simulates.pure _
  · refine Simulates.bind (Simulates.gets fun _ _ h => h.stream) fun stream => ?_
    refine Simulates.bind (onWorld_simulates (invoke_simulates _)) fun text => ?_
    refine Simulates.bind (Simulates.gets fun _ _ h => h.lastInterim) fun lastInterim => ?_
    split
    · exact Simulates.bind (Simulates.modify fun _ _ h => { h with lastInterim := rfl }) fun _ =>
        Simulates.pure _
    · exact Simulates.pure _

theorem lastText_simulates :
    Simulates (Same layers) (StreamingSession.lastText backend)
      (StreamingSession.lastText backend) := by
  refine Simulates.bind (Simulates.gets fun _ _ h => h.currentHasAudio) fun currentHasAudio => ?_
  split
  · exact Simulates.bind (Simulates.gets fun _ _ h => h.stream) fun _ =>
      onWorld_simulates (invoke_simulates _)
  · refine Simulates.bind (Simulates.gets fun _ _ h => h.lastFinal) fun _ => ?_
    exact Simulates.bind (Simulates.modify fun _ _ h => { h with lastFinal := rfl }) fun _ =>
      Simulates.fromExcept fun _ hr => hr

theorem drainResidual_simulates (hl : layers) :
    Simulates (Same layers) (StreamingSession.drainResidual backend)
      (StreamingSession.drainResidual backend) := by
  refine Simulates.bind (Simulates.gets fun _ _ h => (h.framing hl).2) fun residual => ?_
  split
  · exact Simulates.pure _
  · refine Simulates.bind (accept_simulates _) fun _ =>
      Simulates.bind (processVad_simulates _) fun _ => ?_
    exact Simulates.modify fun _ _ h => { h with framing := fun hl => ⟨(h.framing hl).1, rfl⟩ }

theorem finish_simulates (engine : SttEngine) (hl : layers) :
    Simulates (Same layers) (StreamingSession.finish engine context)
      (StreamingSession.finish engine .live) := by
  refine Simulates.ending
    (fun _ _ h => { h with world := ⟨h.world.history, congrArg (· - 1) h.world.active⟩ }) ?_
  refine Simulates.bind (Simulates.gets fun _ _ h => h.finished) fun finished => ?_
  refine Simulates.bind (Simulates.failIf id _ _) fun _ => ?_
  refine Simulates.bind (onWorld_simulates ensureActive_simulates) fun _ => ?_
  refine Simulates.bind (Simulates.gets fun _ _ h => (h.framing hl).1) fun decoder => ?_
  refine Simulates.bind (Simulates.fromExcept fun _ hr => hr) fun _ => ?_
  refine Simulates.bind (drainResidual_simulates hl) fun _ => ?_
  refine Simulates.bind (Simulates.modify fun _ _ h => { h with finished := rfl }) fun _ => ?_
  refine Simulates.bind lastText_simulates fun text => ?_
  exact Simulates.bind (onWorld_simulates ensureActive_simulates) fun _ => Simulates.pure _

theorem processFrame_preserves {I : StreamingSession → Prop}
    (hI : ∀ s stream vad lastInterim lastFinal currentHasAudio world, I s →
      I { s with stream, vad, lastInterim, lastFinal, currentHasAudio, world }) (frame : List ℚ) :
    Preserves I (StreamingSession.processFrame backend context frame) := by
  have hworld {α : Type} (m : EStateM SttError World α) : Preserves I (onWorld m) :=
    Preserves.zoom
      (fun w s hs => hI s s.stream s.vad s.lastInterim s.lastFinal s.currentHasAudio w hs) id m
  refine Preserves.bind (hworld _) fun _ => ?_
  refine Preserves.bind ?_ fun _ => Preserves.bind ?_ fun transition => ?_
  · refine Preserves.bind (Preserves.gets _) fun _ => Preserves.bind (hworld _) fun _ => ?_
    exact Preserves.modify fun s hs => hI s s.stream s.vad s.lastInterim s.lastFinal true s.world hs
  · exact Preserves.zoom
      (fun v s hs => hI s s.stream v s.lastInterim s.lastFinal s.currentHasAudio s.world hs) _ _
  · split
    · refine Preserves.bind (Preserves.gets _) fun _ => Preserves.bind (hworld _) fun text =>
        Preserves.bind (hworld _) fun _ => ?_
      refine Preserves.bind (Preserves.modify fun s hs =>
        hI s s.stream s.vad s.lastInterim (some text) s.currentHasAudio s.world hs) fun _ => ?_
      refine Preserves.bind (hworld _) fun next => Preserves.bind (Preserves.modify fun s hs =>
        hI s next s.vad "" s.lastFinal false s.world hs) fun _ => Preserves.pure _
    · refine Preserves.bind (Preserves.gets _) fun _ => Preserves.bind (hworld _) fun text =>
        Preserves.bind (Preserves.gets _) fun _ => ?_
      split
      · exact Preserves.bind (Preserves.modify fun s hs =>
          hI s s.stream s.vad text s.lastFinal s.currentHasAudio s.world hs) fun _ =>
            Preserves.pure _
      · exact Preserves.pure _

end

def converted (rate : Nat) (bytes : List UInt8) : List ℚ :=
  resampled rate engineSampleRate (decodePcm16 bytes)

def framesOf (rate : Nat) (bytes : List UInt8) : List (List ℚ) :=
  blocks vadFrame (converted rate bytes)

structure Tracks (rate : Nat) (limits : AudioLimits) (taken : List UInt8) (s : StreamingSession) :
    Prop where
  decoder : s.decoder = IncrementalPcm16.after rate limits taken
  resampler : s.resampler = StreamingResampler.after rate engineSampleRate (decodePcm16 taken)
  residual : s.residual = remainder vadFrame (converted rate taken)
  finished : s.finished = false

/-- What a session can take in: whole totals within the limits and within the
resampler's arithmetic. -/
def Accepts (rate : Nat) (limits : AudioLimits) (bytes : List UInt8) : Prop :=
  bytes ≠ [] →
    limits.Admits bytes.length rate (bytes.length / 2) ∧
    Fits engineSampleRate (decodePcm16 bytes).length

section

variable {rate : Nat} {limits : AudioLimits}

def convertedBy (rate : Nat) (taken bytes : List UInt8) : List ℚ :=
  (converted rate (taken ++ bytes)).drop (converted rate taken).length

theorem converted_append (hr : rate ∈ supportedSampleRates) (taken bytes : List UInt8) :
    converted rate (taken ++ bytes) = converted rate taken ++ convertedBy rate taken bytes := by
  have hr' := supported_bounds hr
  have hfront : converted rate taken <+: converted rate (taken ++ bytes) := by
    rw [converted, converted, decodePcm16_split, resampled_append (by omega) (by decide)]
    exact List.prefix_append _ _
  obtain ⟨rest, hrest⟩ := hfront
  rw [convertedBy, ← hrest, List.drop_left]

theorem framesOf_append (hr : rate ∈ supportedSampleRates) (taken bytes : List UInt8) :
    framesOf rate (taken ++ bytes) =
      framesOf rate taken ++
      blocks vadFrame
      (remainder vadFrame (converted rate taken) ++ convertedBy rate taken bytes) := by
  rw [framesOf, converted_append hr, blocks_append, framesOf]

theorem remainder_converted (hr : rate ∈ supportedSampleRates) (taken bytes : List UInt8) :
    remainder vadFrame (converted rate (taken ++ bytes)) =
      remainder vadFrame
      (remainder vadFrame (converted rate taken) ++ convertedBy rate taken bytes) := by
  rw [converted_append hr, remainder_append]

theorem Accepts.of_append {taken bytes : List UInt8} (h : Accepts rate limits (taken ++ bytes)) :
    Accepts rate limits taken := by
  intro hne
  obtain ⟨ha, hf⟩ := h (by simp [hne])
  rw [List.length_append] at ha
  refine ⟨ha.mono (by omega) (by omega), hf.mono ?_⟩
  rw [decodePcm16_split, List.length_append]
  omega

theorem decoded_not_invalid (bytes : List UInt8) :
    ((decodePcm16 bytes).map F32.finite).any F32.invalid = false :=
  F32.any_invalid_finite (decodePcm16_in_range bytes)

theorem convertedBy_of_nil {taken bytes : List UInt8}
    (h : decodePcm16 ((oddByte taken).toList ++ bytes) = []) :
    convertedBy rate taken bytes = [] := by
  rw [convertedBy, converted, converted, decodePcm16_split, h, List.append_nil, List.drop_length]

theorem run_layers (hr : rate ∈ supportedSampleRates) {taken bytes : List UInt8}
    (hacc : Accepts rate limits (taken ++ bytes)) (hne : bytes ≠ []) :
    (IncrementalPcm16.push bytes).run (IncrementalPcm16.after rate limits taken) =
      .ok (decodePcm16 ((oddByte taken).toList ++ bytes))
      (IncrementalPcm16.after rate limits (taken ++ bytes)) ∧
    (decodePcm16 ((oddByte taken).toList ++ bytes) ≠ [] →
      (StreamingResampler.push ((decodePcm16 ((oddByte taken).toList ++ bytes)).map .finite)).run
      (StreamingResampler.after rate engineSampleRate (decodePcm16 taken)) =
      .ok (convertedBy rate taken bytes)
      (StreamingResampler.after rate engineSampleRate (decodePcm16 (taken ++ bytes)))) := by
  obtain ⟨hadmits, hfit⟩ := hacc (by simp [hne])
  refine ⟨IncrementalPcm16.run_push hadmits, fun hdecoded => ?_⟩
  have hrun :=
    StreamingResampler.run_push hr (t := engineSampleRate) (by decide) (decodePcm16 taken)
    (by rw [Ne, List.map_eq_nil_iff]; exact hdecoded)
      (decoded_not_invalid ((oddByte taken).toList ++ bytes))
    (by rw [F32.map_value_finite, ← decodePcm16_split]; exact hfit)
  rw [F32.map_value_finite, ← decodePcm16_split] at hrun
  rw [hrun, convertedBy, converted, converted, resampled_length]

theorem Tracks.observed {taken : List UInt8} {s : StreamingSession}
    (h : Tracks rate limits taken s) : Tracks rate limits taken s.observed :=
  ⟨h.decoder, h.resampler, h.residual, h.finished⟩

theorem Tracks.residual_length_lt {taken : List UInt8} {s : StreamingSession}
    (h : Tracks rate limits taken s) : s.residual.length < 2 ^ 32 := by
  have hlt : (remainder vadFrame (converted rate taken)).length < 320 :=
    remainder_length_lt vadFrame _
  rw [h.residual]
  omega

theorem processFrames_tracks {backend : Backend} {context : RequestContext} {taken : List UInt8}
    {s s' : StreamingSession} (h : Tracks rate limits taken s) {frames : List (List ℚ)}
    {updates : List Transcript}
    (hrun : (collect (StreamingSession.processFrame backend context) frames).run s =
      .ok updates s') :
    Tracks rate limits taken s' :=
  (Preserves.collect (fun frame => processFrame_preserves
    (fun _ _ _ _ _ _ _ h => ⟨h.decoder, h.resampler, h.residual, h.finished⟩) frame) frames).ok h
      hrun

def nextFrames (rate : Nat) (taken bytes : List UInt8) : List (List ℚ) :=
  blocks vadFrame (remainder vadFrame (converted rate taken) ++ convertedBy rate taken bytes)

def advanced (rate : Nat) (limits : AudioLimits) (taken : List UInt8) (s : StreamingSession) :
    StreamingSession :=
  { s with
    decoder := IncrementalPcm16.after rate limits taken
    resampler := StreamingResampler.after rate engineSampleRate (decodePcm16 taken)
    residual := remainder vadFrame (converted rate taken) }

theorem advanced_tracks {taken : List UInt8} {s : StreamingSession} (h : s.finished = false) :
    Tracks rate limits taken (advanced rate limits taken s) := ⟨rfl, rfl, rfl, h⟩

theorem advanced_same (taken : List UInt8) (s : StreamingSession) :
    SameCore s (advanced rate limits taken s) :=
  ⟨rfl, rfl, rfl, rfl, rfl, rfl, ⟨rfl, rfl⟩, False.elim⟩

theorem run_pushPcm16 {engine : SttEngine} {context : RequestContext}
    (hr : rate ∈ supportedSampleRates) {taken bytes : List UInt8} {s : StreamingSession}
    (htracks : Tracks rate engine.limits.audio taken s) (hne : bytes ≠ [])
    (hlen : bytes.length ≤ engine.limits.maxChunkBytes)
    (hacc : Accepts rate engine.limits.audio (taken ++ bytes)) :
    (StreamingSession.pushPcm16 engine context bytes).run s =
      if decodePcm16 ((oddByte taken).toList ++ bytes) = [] then
        (do
          onWorld (ensureActive context)
          modify (advanced rate engine.limits.audio (taken ++ bytes))
          pure [] : SessionM (List Transcript)).run s
      else
        (do
          onWorld (ensureActive context)
          modify (advanced rate engine.limits.audio (taken ++ bytes))
          let updates ← collect (StreamingSession.processFrame engine.backend context)
              (nextFrames rate taken bytes)
          onWorld (ensureActive context)
          pure updates).run s := by
  obtain ⟨hdecode, hresample⟩ := run_layers hr hacc hne
  have hguard :
      ¬ (s.finished = true ∨ bytes = [] ∨ engine.limits.maxChunkBytes < bytes.length) := by
    rw [htracks.finished]
    simp [hne, hlen]
  rw [StreamingSession.pushPcm16, run_bind_of_ok (run_gets _ _),
    run_bind_of_ok (run_failIf_neg hguard _ _)]
  cases hcheck : (onWorld (ensureActive context)).run s with
  | error e t =>
      rw [run_bind_of_error hcheck, run_bind_of_error hcheck, run_bind_of_error hcheck, ite_self]
  | ok u t =>
      cases run_check_eq_ok hcheck
      have ht := htracks.observed
      rw [← ht.decoder] at hdecode
      rw [run_bind_of_ok hcheck, run_bind_of_ok hcheck, run_bind_of_ok hcheck,
        run_bind_of_ok (run_zoom_of_ok hdecode),
        run_bind_of_ok (EStateM.run_modify _ _), run_bind_of_ok (EStateM.run_modify _ _)]
      by_cases hnil : decodePcm16 ((oddByte taken).toList ++ bytes) = []
      · have hstate : advanced rate engine.limits.audio (taken ++ bytes) s.observed =
            s.observed.setDecoder
              (IncrementalPcm16.after rate engine.limits.audio (taken ++ bytes)) := by
          rw [StreamingSession.setDecoder, advanced, converted_append hr, convertedBy_of_nil hnil,
            List.append_nil,
            decodePcm16_split, hnil, List.append_nil, ← ht.resampler, ← ht.residual]
        rw [if_pos hnil, if_pos hnil, hstate]
      · generalize hmid :
          s.observed.setDecoder (IncrementalPcm16.after rate engine.limits.audio (taken ++ bytes)) =
          mid
        have hres :
            (StreamingResampler.push
            ((decodePcm16 ((oddByte taken).toList ++ bytes)).map .finite)).run
            mid.resampler = _ := (congrArg _ (hmid ▸ ht.resampler)).trans (hresample hnil)
        have hresidual (r : StreamingResampler) :
            (mid.setResampler r).residual = remainder vadFrame (converted rate taken) :=
          hmid ▸ ht.residual
        rw [if_neg hnil, if_neg hnil, run_bind_of_ok (run_zoom_of_ok hres),
          run_bind_of_ok (run_gets _ _),
          run_bind_of_ok (EStateM.run_modify _ _), hresidual, nextFrames, ← remainder_converted hr,
            ← hmid]
        rfl

theorem Accepts.length_lt {taken : List UInt8} (h : Accepts rate limits taken) :
    taken.length < 2 ^ 64 := by
  by_cases hnil : taken = []
  · rw [hnil, List.length_nil]; omega
  · exact Nat.lt_of_le_of_lt (h hnil).1.1 limits.maxEncodedBytes.toNat_lt

theorem Accepts.fits {taken : List UInt8} (h : Accepts rate limits taken) :
    Fits engineSampleRate (decodePcm16 taken).length := by
  by_cases hnil : taken = []
  · rw [hnil]; exact Fits.zero _
  · exact (h hnil).2

theorem accepts_of_push {engine : SttEngine} {context : RequestContext} {taken bytes : List UInt8}
    {s s' : StreamingSession} {updates : List Transcript}
    (htracks : Tracks rate engine.limits.audio taken s)
    (hacc : Accepts rate engine.limits.audio taken)
    (h : (StreamingSession.pushPcm16 engine context bytes).run s = .ok updates s') :
    bytes ≠ [] ∧ bytes.length ≤ engine.limits.maxChunkBytes ∧
    Accepts rate engine.limits.audio (taken ++ bytes) := by
  rw [StreamingSession.pushPcm16, run_bind_of_ok (run_gets _ _)] at h
  obtain ⟨_, _, hif, h⟩ := run_bind_ok h
  obtain ⟨hguard, rfl⟩ := run_failIf_eq_ok hif
  obtain ⟨hne, hlen⟩ := not_or.mp (not_or.mp hguard).2
  obtain ⟨_, _, hcheck, h⟩ := run_bind_ok h
  cases run_check_eq_ok hcheck
  have ht := htracks.observed
  obtain ⟨decoded, _, hzoom, h⟩ := run_bind_ok h
  obtain ⟨decoder, hdecode, rfl⟩ := run_zoom_eq_ok hzoom
  rw [ht.decoder] at hdecode
  refine ⟨hne, Nat.not_lt.mp hlen, fun _ => ?_⟩
  by_cases hadmits :
    engine.limits.audio.Admits (taken ++ bytes).length rate ((taken ++ bytes).length / 2)
  · refine ⟨hadmits, ?_⟩
    rw [IncrementalPcm16.run_push hadmits] at hdecode
    cases hdecode
    by_cases hnil : decodePcm16 ((oddByte taken).toList ++ bytes) = []
    · rw [decodePcm16_split, hnil, List.append_nil]; exact hacc.fits
    · rw [if_neg hnil] at h
      obtain ⟨_, _, hzoom', _⟩ := run_bind_ok h
      obtain ⟨resampler, hresample, _⟩ := run_zoom_eq_ok hzoom'
      have hrun := (congrArg _ ht.resampler).symm.trans hresample
      by_contra hfit
      rw [decodePcm16_split,
        ← F32.map_value_finite (decodePcm16 ((oddByte taken).toList ++ bytes))] at hfit
      obtain ⟨e, r, herror⟩ := StreamingResampler.run_push_error (s := rate) hfit
      exact absurd (herror.symm.trans hrun) (by simp)
  · obtain ⟨e, herror⟩ := IncrementalPcm16.run_push_error hacc.length_lt hadmits
    exact absurd (herror.symm.trans hdecode) (by simp)

/-- A push that returns has processed the frames its bytes complete. -/
theorem push_sound {engine : SttEngine} {context : RequestContext}
    (hr : rate ∈ supportedSampleRates) {taken bytes : List UInt8} {s s' t : StreamingSession}
    {updates : List Transcript} (htracks : Tracks rate engine.limits.audio taken s)
    (hacc : Accepts rate engine.limits.audio taken) (hsame : SameCore s t)
    (h : (StreamingSession.pushPcm16 engine context bytes).run s = .ok updates s') :
    Tracks rate engine.limits.audio (taken ++ bytes) s' ∧
    ∃ t',
      (collect (StreamingSession.processFrame engine.backend .live)
      (nextFrames rate taken bytes)).run t = .ok updates t' ∧ SameCore s' t' := by
  obtain ⟨hne, hlen, hacc'⟩ := accepts_of_push htracks hacc h
  rw [run_pushPcm16 hr htracks hne hlen hacc'] at h
  by_cases hnil : decodePcm16 ((oddByte taken).toList ++ bytes) = []
  · rw [if_pos hnil] at h
    obtain ⟨_, _, hcheck, h⟩ := run_bind_ok h
    cases run_check_eq_ok hcheck
    cases h
    refine ⟨advanced_tracks htracks.finished, t, ?_, (advanced_same _ _).symm.trans
      ((SameCore.observed s).symm.trans hsame)⟩
    rw [nextFrames, convertedBy_of_nil hnil, List.append_nil,
      blocks_of_lt (remainder_length_lt _ _)]
    rfl
  · rw [if_neg hnil] at h
    obtain ⟨_, _, hcheck, h⟩ := run_bind_ok h
    cases run_check_eq_ok hcheck
    rw [run_bind_of_ok (EStateM.run_modify _ _)] at h
    obtain ⟨emitted, mid, hcollect, h⟩ := run_bind_ok h
    obtain ⟨_, _, hcheck, h⟩ := run_bind_ok h
    cases run_check_eq_ok hcheck
    cases h
    have hstart : SameCore (advanced rate engine.limits.audio (taken ++ bytes) s.observed) t :=
      (advanced_same _ _).symm.trans ((SameCore.observed s).symm.trans hsame)
    obtain ⟨t', ht', hsame'⟩ := Simulates.collect processFrame_simulates _ _ _ hstart _ _ hcollect
    exact ⟨(processFrames_tracks (advanced_tracks htracks.observed.finished) hcollect).observed, t',
      ht',
      (SameCore.observed mid).symm.trans hsame'⟩

/-- A frame within bounds is taken in as soon as the frames it completes can
be processed. -/
theorem push_complete {engine : SttEngine} (hr : rate ∈ supportedSampleRates)
    {taken bytes : List UInt8}
    {s t t' : StreamingSession} {updates : List Transcript}
    (htracks : Tracks rate engine.limits.audio taken s)
    (hsame : SameCore t s) (hne : bytes ≠ []) (hlen : bytes.length ≤ engine.limits.maxChunkBytes)
    (hacc : Accepts rate engine.limits.audio (taken ++ bytes))
    (hframes :
      (collect (StreamingSession.processFrame engine.backend .live)
      (nextFrames rate taken bytes)).run t =
      .ok updates t') :
    ∃ s', (StreamingSession.pushPcm16 engine .live bytes).run s = .ok updates s' ∧
      Tracks rate engine.limits.audio (taken ++ bytes) s' ∧ SameCore t' s' := by
  rw [run_pushPcm16 hr htracks hne hlen hacc]
  have hstart : SameCore t (advanced rate engine.limits.audio (taken ++ bytes) s.observed) :=
    hsame.trans ((SameCore.observed s).trans (advanced_same _ _))
  by_cases hnil : decodePcm16 ((oddByte taken).toList ++ bytes) = []
  · rw [nextFrames, convertedBy_of_nil hnil, List.append_nil,
      blocks_of_lt (remainder_length_lt _ _)] at hframes
    cases hframes
    rw [if_pos hnil, run_bind_of_ok (run_check_live s), run_bind_of_ok (EStateM.run_modify _ _)]
    exact ⟨_, rfl, advanced_tracks htracks.finished, hstart⟩
  · obtain ⟨mid, hmid, hsame'⟩ := Simulates.collect processFrame_simulates _ _ _ hstart _ _ hframes
    rw [if_neg hnil, run_bind_of_ok (run_check_live s), run_bind_of_ok (EStateM.run_modify _ _),
      run_bind_of_ok hmid, run_bind_of_ok (run_check_live mid)]
    exact ⟨_, rfl, (processFrames_tracks (advanced_tracks htracks.observed.finished) hmid).observed,
      hsame'.trans (SameCore.observed mid)⟩

theorem framesOf_nil : framesOf rate [] = [] := by
  rw [framesOf, converted, show decodePcm16 [] = [] from rfl, resampled_nil,
    blocks_of_lt (by decide)]

theorem framesOf_bounds (rate : Nat) (bytes : List UInt8) :
    ∀ f ∈ framesOf rate bytes, f ≠ [] ∧ f.length < 2 ^ 32 := by
  intro f hf
  have hlen : f.length = 320 := blocks_length_eq hf
  exact ⟨List.ne_nil_of_length_pos (by omega), by omega⟩

theorem accepts_nil : Accepts rate limits [] := fun h => absurd rfl h

/-- A run of pushes that all return has processed the complete frames of all
the bytes together. -/
theorem pushes_sound {engine : SttEngine} {context : RequestContext}
    (hr : rate ∈ supportedSampleRates) {s₀ s : StreamingSession}
    (htracks : Tracks rate engine.limits.audio [] s₀) (pushes : List (List UInt8))
    {updates : List Transcript}
    (h : (collect (StreamingSession.pushPcm16 engine context) pushes).run s₀ = .ok updates s) :
    (∀ p ∈ pushes, p ≠ [] ∧ p.length ≤ engine.limits.maxChunkBytes) ∧
    Accepts rate engine.limits.audio pushes.flatten ∧
    Tracks rate engine.limits.audio pushes.flatten s ∧
    ∃ t,
      (collect (StreamingSession.processFrame engine.backend .live)
      (framesOf rate pushes.flatten)).run s₀ = .ok updates t ∧ SameCore s t := by
  induction pushes using List.reverseRecOn generalizing s updates with
  | nil =>
      cases h
      rw [List.flatten_nil, framesOf_nil]
      exact ⟨fun _ hp => absurd hp List.not_mem_nil, accepts_nil, htracks, s₀, rfl, SameCore.refl _⟩
  | append_singleton pushes bytes ih =>
      obtain ⟨us, mid, vs, hfront, hlast, rfl⟩ := run_collect_append_eq_ok h
      obtain ⟨hsizes, hacc, hmid, t, ht, hsame⟩ := ih hfront
      rw [run_collect_singleton] at hlast
      obtain ⟨hne, hlen, hacc'⟩ := accepts_of_push hmid hacc hlast
      obtain ⟨htracks', t', ht', hsame'⟩ := push_sound hr hmid hacc hsame hlast
      rw [List.flatten_append, List.flatten_singleton, framesOf_append hr]
      refine ⟨?_, hacc', htracks', t', run_collect_append_ok ht ht', hsame'⟩
      intro p hp
      rcases List.mem_append.mp hp with hp | hp
      · exact hsizes p hp
      · rw [List.mem_singleton.mp hp]; exact ⟨hne, hlen⟩

/-- Every cutting of acceptable bytes into frames can be pushed, as soon as
the complete frames of all the bytes together can be processed. -/
theorem pushes_complete {engine : SttEngine} (hr : rate ∈ supportedSampleRates)
    {s₀ t : StreamingSession}
    (htracks : Tracks rate engine.limits.audio [] s₀) (pushes : List (List UInt8))
    (hsizes : ∀ p ∈ pushes, p ≠ [] ∧ p.length ≤ engine.limits.maxChunkBytes)
    (hacc : Accepts rate engine.limits.audio pushes.flatten) {updates : List Transcript}
    (hframes :
      (collect (StreamingSession.processFrame engine.backend .live)
      (framesOf rate pushes.flatten)).run s₀ =
      .ok updates t) :
    ∃ s, (collect (StreamingSession.pushPcm16 engine .live) pushes).run s₀ = .ok updates s ∧
      Tracks rate engine.limits.audio pushes.flatten s ∧ SameCore t s := by
  induction pushes using List.reverseRecOn generalizing t updates with
  | nil =>
      rw [List.flatten_nil, framesOf_nil] at hframes
      cases hframes
      exact ⟨s₀, rfl, htracks, SameCore.refl _⟩
  | append_singleton pushes bytes ih =>
      rw [List.flatten_append, List.flatten_singleton] at hacc hframes ⊢
      rw [framesOf_append hr] at hframes
      obtain ⟨us, mid, vs, hfront, hlast, rfl⟩ := run_collect_append_eq_ok hframes
      obtain ⟨s, hs, hmid, hsame⟩ :=
        ih (fun p hp => hsizes p (List.mem_append_left _ hp)) hacc.of_append hfront
      obtain ⟨hne, hlen⟩ := hsizes bytes (List.mem_append_right _ (List.mem_singleton_self _))
      obtain ⟨s', hs', htracks', hsame'⟩ := push_complete hr hmid hsame hne hlen hacc hlast
      exact ⟨s', run_collect_append_ok hs (by rw [run_collect_singleton]; exact hs'), htracks',
        hsame'⟩

end

end ImpossibleVoice.Stt
