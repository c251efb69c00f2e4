import ImpossibleVoice.Stt.Totality
import Mathlib.Data.List.Nodup

namespace ImpossibleVoice.Stt

open Lib Audio

theorem count_finish (log : List Exchange) (n : Nat) :
    (log.map Exchange.call).count (.finish n) = ((finishes log).map Prod.fst).count n := by
  induction log with
  | nil => rfl
  | cons e log ih =>
      obtain ⟨call, reply⟩ := e
      cases call with
      | finish m =>
          have hcons : (finishes (⟨.finish m, reply⟩ :: log)).map Prod.fst =
              m :: (finishes log).map Prod.fst := rfl
          rw [hcons, List.map_cons, List.count_cons, List.count_cons, ih]
          simp
      | stream m | accept m xs | interim m =>
          rw [List.map_cons, List.count_cons, ih]
          simp [finishes, Exchange.op, HandleOp.released]

theorem op_handle (e : Exchange) : e.op.handle = e.call.id := by
  obtain ⟨call, reply⟩ := e
  cases call <;> rfl

/-- Raw PCM16 that an open session has taken in and can finish is a recording
within the limits, and resamples to what the session has converted. -/
theorem recording_of_finish {rate : Nat} {limits : AudioLimits} {taken : List UInt8}
    (hr : rate ∈ supportedSampleRates) (hacc : Accepts rate limits taken) {a : MonoPcm}
    (h : (IncrementalPcm16.after rate limits taken).finish = .ok a) :
    ∃ m out, MonoPcm.fromPcm16Le taken rate limits = .ok m ∧ m.resample engineSampleRate = .ok out ∧
      out.samples = converted rate taken := by
  rw [IncrementalPcm16.finish_after] at h
  split at h
  · cases h
  · rename_i heven
    obtain ⟨_, hne, _, hrate, hsamples⟩ := MonoPcm.new_eq_ok.mp h
    rw [F32.map_value_finite] at hsamples
    have htaken : taken ≠ [] := fun hnil => hne (by rw [hnil]; rfl)
    obtain ⟨hadmits, hfit⟩ := hacc htaken
    have hm :=
      MonoPcm.fromPcm16Le_eq_ok.mpr ⟨hr, htaken, not_not.mp heven, hadmits, hrate, hsamples⟩
    obtain ⟨out, hout, _, hos⟩ :=
      a.resample_ok (t := engineSampleRate) (by decide) (by rw [hsamples]; exact hfit)
    exact ⟨a, out, hm, hout, by rw [hos, hrate, hsamples, converted]⟩

theorem recording_of_session {engine : SttEngine} {rate : Nat} {context : RequestContext}
    (hr : rate ∈ supportedSampleRates) {s₀ s t : StreamingSession}
    (htracks₀ : Tracks rate engine.limits.audio [] s₀) {pushes : List (List UInt8)}
    {updates : List Transcript} {transcript : Transcript}
    (hpushes : (collect (StreamingSession.pushPcm16 engine context) pushes).run s₀ = .ok updates s)
    (hfinish : (StreamingSession.finish engine context).run s = .ok transcript t) :
    ∃ m out, MonoPcm.fromPcm16Le pushes.flatten rate engine.limits.audio = .ok m ∧
    m.resample engineSampleRate = .ok out ∧ out.samples = converted rate pushes.flatten := by
  obtain ⟨_, hacc, htracks, _⟩ := pushes_sound hr htracks₀ pushes hpushes
  obtain ⟨⟨a, ha⟩, _⟩ := run_finish_eq_ok htracks.residual_length_lt hfinish
  rw [htracks.decoder] at ha
  exact recording_of_finish hr hacc ha

/-- What a whole session leaves in the history: `k` utterances closed by the
detector, then the stream that `finish` finds open. -/
structure LinearSession (detector : EnergyVad) (first k : Nat) (samples : List ℚ)
    (updates : List Transcript) (transcript : Transcript) (log : List Exchange) : Prop where
  streams : created log = List.range' first (k + 1)
  audio : (created log).flatMap (accepted log) = samples
  calls : log.map Exchange.call = .stream first ::
    (frameCalls first ((blocks vadFrame samples).zip (detector.events (blocks vadFrame samples))) ++
      closingCalls (first + k) (remainder vadFrame samples) (accepted log (first + k) ≠ []))
  ended : k = (detector.events (blocks vadFrame samples)).count .ended
  finished_once : ∀ n ∈ List.range' first k, (log.map Exchange.call).count (.finish n) = 1
  no_use_after_finish : ∀ front n reply back, log = front ++ ⟨.finish n, reply⟩ :: back →
    ∀ e ∈ back, e.call.id ≠ n
  texts : finishes log = (List.range' first k).zip ((finals updates).map .ok) ++
    (if accepted log (first + k) = [] then [] else [(first + k, .ok transcript.text)])
  finals : (finals updates).length = k
  kind : transcript.kind = .final
  lastFinal : accepted log (first + k) = [] → (Stt.finals updates).getLast? = some transcript.text

/-- No audio is lost, duplicated or reordered between utterances, and streams
are used linearly. -/
theorem utterances_use_streams_linearly (engine : SttEngine) (rate : Nat)
    (context : RequestContext) (w w₀ : World) (s₀ s t : StreamingSession)
    (hopen : (engine.startStream rate context).run w = .ok s₀ w₀) (pushes : List (List UInt8))
    (updates : List Transcript)
    (hpushes : (collect (StreamingSession.pushPcm16 engine context) pushes).run s₀ = .ok updates s)
    (transcript : Transcript)
    (hfinish : (StreamingSession.finish engine context).run s = .ok transcript t) :
    ∃ log k m out, t.world.history = w.history ++ log ∧
    MonoPcm.fromPcm16Le pushes.flatten rate engine.limits.audio = .ok m ∧
    m.resample engineSampleRate = .ok out ∧
    LinearSession engine.detector s₀.stream k out.samples updates transcript log := by
  obtain ⟨hr, rfl, text, hopened⟩ := startStream_eq_ok hopen
  generalize hfirst : nextStream w.history = first at *
  obtain ⟨_, _, htracks, c, hcanonical, hsame⟩ :=
    pushes_sound hr (opened_tracks engine rate first w₀) pushes hpushes
  have hnext : nextStream w₀.history = first + 1 := by
    rw [hopened, nextStream_append, hfirst]
    simp [nextStream, BackendCall.id]
  obtain ⟨log₁, hrun⟩ := run_processFrames_eq_ok (s := opened engine rate first w₀)
    (framesOf_bounds rate pushes.flatten) hnext hcanonical
  have hresidual := htracks.residual
  obtain ⟨_, log₂, hclose⟩ := run_finish_eq_ok htracks.residual_length_lt hfinish
  obtain ⟨m, out, hm, hout, hsamples⟩ :=
    recording_of_session hr (opened_tracks engine rate first w₀) hpushes hfinish
  refine ⟨⟨.stream first, .ok text⟩ :: (log₁ ++ log₂),
    (engine.detector.events (framesOf rate pushes.flatten)).count .ended, m, out, ?_, hm, hout, ?_⟩
  · rw [hclose.history, hsame.world.history, hrun.history]
    show w₀.history ++ log₁ ++ log₂ = _
    rw [hopened, List.append_assoc, List.append_assoc]
    rfl
  rw [hsamples, show (opened engine rate first w₀).stream = first from rfl]
  generalize hk : (engine.detector.events (framesOf rate pushes.flatten)).count .ended = k
  have hlast : c.stream = first + k := hrun.stream.trans (by rw [← hk]; rfl)
  have hslast : s.stream = first + k := hsame.stream.trans hlast
  have hfinals : (finals updates).length = k := hrun.finals_length.trans hk
  obtain ⟨hhist₁, _, _, hcalls₁, _, hlinear₁, huses₁, hfinished₁, hlastFinal₁, haudio₁⟩ := hrun
  obtain ⟨hhist₂, hcalls₂, huses₂, haccepted₂, hfinished₂, hlinear₂, hkind, hlastFinal₂, _⟩ :=
    hclose
  rw [hslast] at hcalls₂ haccepted₂ hfinished₂ hlinear₂
  rw [hlast] at hlinear₁ haudio₁
  generalize hlog : (⟨.stream first, .ok text⟩ : Exchange) :: (log₁ ++ log₂) = log
  have hops : log.map Exchange.op =
      .acquire first :: (log₁.map Exchange.op ++ log₂.map Exchange.op) := by
    rw [← hlog, List.map_cons, List.map_append]; rfl
  have hgiven : accepted log (first + k) = accepted log₁ (first + k) ++ s.residual := by
    rw [← haccepted₂, ← accepted_append, ← hlog]; rfl
  have haudio : (s.currentHasAudio || decide (s.residual ≠ [])) =
      decide (accepted log (first + k) ≠ []) := by
    rw [hgiven, hsame.currentHasAudio, Bool.eq_iff_iff]
    simp only [Bool.or_eq_true, decide_eq_true_eq, haudio₁, ne_eq, List.append_eq_nil_iff,
      not_and_or]
    simp [opened]
  rw [haudio] at hcalls₂ hfinished₂ hlinear₂ hlastFinal₂
  have hlinear := Phase.Run.cons (Phase.Step.acquire first) (hlinear₁.append hlinear₂)
  rw [← hops] at hlinear
  generalize hq : (if decide (accepted log (first + k) ≠ []) = true then Phase.ready (first + k + 1)
    else Phase.holding (first + k)) = q at hlinear
  have hbound : q.bound = first + k + 1 := by
    rw [← hq]
    split <;> rfl
  have hcreated : created log = List.range' first (k + 1) := by
    rw [created, hlinear.acquired_eq, hbound, Phase.bound_ready]
    congr 1
    omega
  have hfinishes : finishes log = finishes log₁ ++
      (if accepted log (first + k) = [] then [] else [(first + k, .ok transcript.text)]) := by
    have hsplit : finishes log = finishes log₁ ++ finishes log₂ := by
      rw [← finishes_append, ← hlog]; rfl
    rw [hsplit, hfinished₂]
    by_cases hnil : accepted log (first + k) = [] <;> simp [hnil]
  have hclosed : (finishes log₁).map Prod.fst = List.range' first k := by
    rw [finishes, hlinear₁.released_eq, Phase.least_holding, Phase.least_holding]
    show List.range' first (first + k - first) = _
    rw [Nat.add_sub_cancel_left]
  have hflat : (created log).flatMap (accepted log) = converted rate pushes.flatten := by
    have huses := hlinear.flatMap_usesOf
    rw [hbound, Phase.least_ready, show first + k + 1 - first = k + 1 by omega, ← hcreated] at huses
    calc (created log).flatMap (accepted log)
        = ((created log).flatMap (fun n => HandleOp.usesOf n (log.map Exchange.op))).flatten := by
          rw [List.flatten_eq_flatMap, List.flatMap_assoc]
          simp only [← List.flatten_eq_flatMap]
          rfl
      _ =
        (HandleOp.uses (log₁.map Exchange.op)).flatten ++
        (HandleOp.uses (log₂.map Exchange.op)).flatten := by
          rw [huses, hops, ← List.flatten_append, ← HandleOp.uses_append]; rfl
      _ = converted rate pushes.flatten := by
          rw [huses₁, huses₂, hresidual]
          exact blocks_flatten_append _ _
  refine ⟨hcreated, hflat, ?_, hk.symm, ?_, ?_, ?_, hfinals, hkind, ?_⟩
  · rw [← hlog, List.map_cons, List.map_append, hcalls₁, hcalls₂, hlog, hresidual]
    rfl
  · intro n hn
    have hleast : first + k ≤ q.least := by
      rw [← hq]
      split <;> simp
    have hmem : n ∈ List.range' first (q.least - first) := by
      rw [List.mem_range'_1] at hn ⊢
      omega
    rw [count_finish, finishes, hlinear.released_eq, Phase.least_ready]
    exact List.count_eq_one_of_mem List.nodup_range' hmem
  · intro front n reply back hsplit e he
    rw [hsplit, List.map_append, List.map_cons] at hlinear
    rw [← op_handle]
    exact hlinear.no_use_after_release e.op (List.mem_map_of_mem he)
  · rw [hfinishes, ← hclosed, ← hfinished₁]
    exact congrArg (· ++ _) (List.zip_of_prod rfl rfl)
  · intro hnil
    rw [← hlastFinal₂ (decide_eq_false (not_not.mpr hnil)), hsame.lastFinal, hlastFinal₁]
    exact (Option.or_none ..).symm

/-- One utterance is closed by the detector, and the last sample goes to a stream of its own. -/
theorem two_frames_close_an_utterance :
    ∃ updates transcript, ∃ t : StreamingSession, ∃ log m out, t.world.history = [] ++ log ∧
    MonoPcm.fromPcm16Le twoFrames 16000 briefEngine.limits.audio = .ok m ∧
    m.resample engineSampleRate = .ok out ∧ out.samples.length = 641 ∧
    LinearSession briefEngine.detector 0 1 out.samples updates transcript log := by
  obtain ⟨w₀, hopen⟩ := briefEngine_opens
  obtain ⟨updates, s, transcript, t, hpushes, hfinish⟩ := briefEngine_hears hopen
  obtain ⟨log, k, m, out, hhistory, hm, hout, hlinear⟩ :=
    utterances_use_streams_linearly briefEngine 16000 .live
    ⟨[], 0, 0, 0⟩ w₀ _ s t hopen [twoFrames] updates hpushes transcript hfinish
  rw [List.flatten_singleton] at hm
  obtain ⟨-, -, -, -, hrate, hsamples⟩ := MonoPcm.fromPcm16Le_eq_ok.mp hm
  have hsame : out.samples = List.replicate 641 (decodeSample 1 1) := by
    rw [MonoPcm.resample, validateRate_ok (by decide)] at hout
    dsimp only [bind, Except.bind] at hout
    rw [if_pos (show engineSampleRate = m.sampleRate from hrate.symm)] at hout
    cases hout
    exact hsamples.trans decode_twoFrames
  have hk : k = 1 := by rw [hlinear.ended, hsame, briefEngine_ends_once]
  subst hk
  exact ⟨updates, transcript, t, log, m, out, hhistory, hm,
    hout, by rw [hsame, List.length_replicate], hlinear⟩

end ImpossibleVoice.Stt
