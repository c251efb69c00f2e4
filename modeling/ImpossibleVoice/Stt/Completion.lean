import ImpossibleVoice.Stt.Refusals

namespace ImpossibleVoice.Stt

open Lib Audio

def HasText (s : StreamingSession) : Prop := s.currentHasAudio = true ∨ s.lastFinal ≠ none

section

variable {rate : Nat} {limits : AudioLimits} {taken bytes : List UInt8} {s t : StreamingSession}

/-- Every frame leaves a text behind: its utterance is still open, or has just been closed. -/
theorem processFrame_hasText (backend : Backend) (context : RequestContext) (frame : List ℚ) :
    Triple (fun _ => True) (StreamingSession.processFrame backend context frame) (fun _ => HasText)
      fun _ _ => True := by
  have hworld {α : Type} {P : StreamingSession → Prop} (m : EStateM SttError World α)
      (hP : ∀ w s, P s → P (s.setWorld w)) : Triple P (onWorld m) (fun _ => P) fun _ _ => True :=
    (Preserves.zoom hP id m).conseq (fun _ h => h) (fun _ _ h => h) fun _ _ _ => trivial
  have haudio (w : World) (s : StreamingSession) (h : HasText s) : HasText (s.setWorld w) := h
  refine Triple.bind (hworld _ fun _ _ _ => trivial) fun _ => ?_
  refine Triple.bind (Q := fun _ => HasText) ?_ fun _ => ?_
  · refine Triple.bind (Q := fun _ _ => True) (Triple.gets fun _ _ => trivial) fun stream => ?_
    exact Triple.bind (hworld _ fun _ _ _ => trivial) fun _ => Triple.modify fun _ _ => .inl rfl
  refine Triple.bind (Q := fun _ => HasText) ?_ fun event => ?_
  · have hvad (vad : EnergyVad) (s : StreamingSession) (h : HasText s) : HasText (s.setVad vad) := h
    exact (Preserves.zoom hvad _ _).conseq (fun _ h => h) (fun _ _ h => h) fun _ _ _ => trivial
  split
  · refine Triple.bind (Q := fun _ => HasText) (Triple.gets fun _ h => h) fun stream => ?_
    refine Triple.bind (hworld _ haudio) fun text => Triple.bind (hworld _ haudio) fun _ => ?_
    refine Triple.bind (Q := fun _ s => s.lastFinal ≠ none)
      (Triple.modify fun _ _ => Option.some_ne_none text) fun _ => ?_
    refine Triple.bind (hworld _ fun _ _ h => h) fun next => ?_
    exact Triple.bind (Q := fun _ => HasText) (Triple.modify fun _ h => .inr h) fun _ =>
      Triple.pure fun _ h => h
  · refine Triple.bind (Q := fun _ => HasText) (Triple.gets fun _ h => h) fun stream => ?_
    refine Triple.bind (hworld _ haudio) fun text => ?_
    refine Triple.bind (Q := fun _ => HasText) (Triple.gets fun _ h => h) fun lastInterim => ?_
    split
    · exact Triple.bind (Q := fun _ => HasText) (Triple.modify fun _ h => h) fun _ =>
        Triple.pure fun _ h => h
    · exact Triple.pure fun _ h => h

theorem processFrames_hasText {backend : Backend} {context : RequestContext}
    {frames : List (List ℚ)} {updates : List Transcript}
    (h : (collect (StreamingSession.processFrame backend context) frames).run s = .ok updates t)
    (hsome : frames ≠ [] ∨ HasText s) : HasText t := by
  cases frames with
  | nil =>
      cases h
      exact hsome.resolve_left fun hne => hne rfl
  | cons frame frames =>
      rw [← List.singleton_append] at h
      obtain ⟨_, mid, _, hfirst, hrest, -⟩ := run_collect_append_eq_ok h
      rw [run_collect_singleton] at hfirst
      have hmid := (processFrame_hasText backend context frame).ok trivial hfirst
      have hall :
          Triple HasText (collect (StreamingSession.processFrame backend context) frames)
          (fun _ => HasText)
          fun _ _ => True :=
        Triple.collect
          (fun frame => (processFrame_hasText backend context frame).conseq (fun _ _ => trivial)
          (fun _ _ h => h) fun _ _ h => h) frames
      exact hall.ok hmid hrest

/-- A session in step, which has something to return as soon as one sample was decoded. -/
structure Sounded (rate : Nat) (limits : AudioLimits) (taken : List UInt8) (s : StreamingSession) :
    Prop where
  tracks : Tracks rate limits taken s
  accepts : Accepts rate limits taken
  text : decodePcm16 taken ≠ [] → s.residual ≠ [] ∨ HasText s

theorem Sounded.setWorld (h : Sounded rate limits taken s) (world : World) :
    Sounded rate limits taken (s.setWorld world) :=
  ⟨⟨h.tracks.decoder, h.tracks.resampler, h.tracks.residual, h.tracks.finished⟩, h.accepts, h.text⟩

theorem Sounded.push {engine : SttEngine} {context : RequestContext}
    (hr : rate ∈ supportedSampleRates) (h : Sounded rate engine.limits.audio taken s)
    {updates : List Transcript}
    (hpush : (StreamingSession.pushPcm16 engine context bytes).run s = .ok updates t) :
    Sounded rate engine.limits.audio (taken ++ bytes) t := by
  obtain ⟨-, -, haccepts⟩ := accepts_of_push h.tracks h.accepts hpush
  obtain ⟨htracks, u, hframes, hsame⟩ := push_sound hr h.tracks h.accepts (SameCore.refl s) hpush
  refine ⟨htracks, haccepts, fun hdecoded => ?_⟩
  by_cases hresidual : t.residual = []
  · right
    have hsplit := blocks_flatten_append vadFrame (s.residual ++ convertedBy rate taken bytes)
    rw [h.tracks.residual, ← remainder_converted hr, ← htracks.residual, hresidual,
      List.append_nil] at hsplit
    have htext : HasText u := by
      apply processFrames_hasText hframes
      by_contra hno
      obtain ⟨hnone, hsilent⟩ := not_or.mp hno
      rw [not_not, nextFrames] at hnone
      rw [hnone, List.flatten_nil, ← h.tracks.residual] at hsplit
      obtain ⟨hempty, hnew⟩ := List.append_eq_nil_iff.mp hsplit.symm
      -- Nothing was held back and nothing came in, so there was a sample before.
      have hbefore : decodePcm16 taken ≠ [] := by
        intro hnil
        have hconverted := converted_append hr taken bytes
        rw [hnew, List.append_nil,
          show converted rate taken = [] by rw [converted, hnil, resampled_nil]] at hconverted
        exact converted_ne_nil hdecoded hconverted
      obtain hpending | hheard := h.text hbefore
      · exact hpending hempty
      · exact hsilent hheard
    rw [HasText, hsame.currentHasAudio, hsame.lastFinal]
    exact htext
  · exact .inl hresidual

theorem Sounded.pushes {engine : SttEngine} {context : RequestContext}
    (hr : rate ∈ supportedSampleRates) (h : Sounded rate engine.limits.audio taken s)
    (calls : List (World × List UInt8))
    (hok : ∀ outcome ∈ outcomes engine context s calls, ∃ updates t, outcome = .ok updates t) :
    Sounded rate engine.limits.audio (taken ++ (calls.map Prod.snd).flatten)
      (afterPushes engine context s calls) := by
  induction calls generalizing s taken with
  | nil =>
      rw [List.map_nil, List.flatten_nil, List.append_nil]
      exact h
  | cons call calls ih =>
      obtain ⟨updates, t, hpush⟩ := hok _ List.mem_cons_self
      rw [outcomes, hpush] at hok
      rw [List.map_cons, List.flatten_cons, ← List.append_assoc, afterPushes, hpush]
      exact ih ((h.setWorld call.1).push hr hpush) fun outcome hmem =>
        hok outcome (List.mem_cons_of_mem _ hmem)

theorem opened_sounded (engine : SttEngine) (rate stream : Nat) (world : World) :
    Sounded rate engine.limits.audio [] (opened engine rate stream world) :=
  ⟨opened_tracks engine rate stream world, accepts_nil, fun h => absurd rfl h⟩

/-- `finish` drains the residual first, and then has a text to return. -/
theorem Sounded.drained {backend : Backend} (h : Sounded rate limits taken s)
    (hdecoded : decodePcm16 taken ≠ [])
    (hdrain : (StreamingSession.drainResidual backend).run s = .ok () t) : HasText t := by
  obtain ⟨-, hlast, haudio, -⟩ := run_drainResidual_eq_ok h.tracks.residual_length_lt hdrain
  rw [HasText, hlast, haudio, Bool.or_eq_true, decide_eq_true_iff]
  obtain hresidual | haudio | hfinal := h.text hdecoded
  · exact .inl (.inr hresidual)
  · exact .inl (.inl haudio)
  · exact .inr hfinal

theorem Sounded.finish_iff {engine : SttEngine} (hr : rate ∈ supportedSampleRates)
    (hbackend : NeverFails engine.backend) (h : Sounded rate engine.limits.audio taken s) :
    (∃ transcript t, (StreamingSession.finish engine .live).run s = .ok transcript t) ↔
      taken.length % 2 = 0 ∧ 0 < taken.length := by
  have hlen := h.tracks.residual_length_lt
  constructor
  · rintro ⟨transcript, t, hfinish⟩
    obtain ⟨⟨m, hm⟩, -⟩ := run_finish_eq_ok hlen hfinish
    rw [h.tracks.decoder] at hm
    obtain ⟨heven, hnew⟩ := IncrementalPcm16.finish_after_eq_ok.mp hm
    refine ⟨heven, List.length_pos_iff.mpr ?_⟩
    rintro rfl
    exact (MonoPcm.new_eq_ok.mp hnew).2.1 rfl
  · rintro ⟨heven, hpos⟩
    have hdecoded : decodePcm16 taken ≠ [] := fun hnil =>
      List.length_pos_iff.mp hpos ((decodePcm16_eq_nil heven).mp hnil)
    have hm := MonoPcm.new_finite hr hdecoded (decodePcm16_in_range taken)
    have hdecoder := h.tracks.decoder ▸ IncrementalPcm16.finish_after_eq_ok.mpr ⟨heven, hm⟩
    exact finish_total hbackend h.tracks.finished hdecoder hlen (h.text hdecoded)

/-- A session whose pushes all returned can be finished exactly when whole samples were
sent, and then there is a text to return. -/
theorem finish_succeeds_iff_whole_samples {engine : SttEngine}
    (hbackend : NeverFails engine.backend) {rate : Nat} {context : RequestContext}
    (hlive : ∀ time, context.cancelled time = false ∧ context.expired time = false) {w w₀ : World}
    {s₀ : StreamingSession} (hopen : (engine.startStream rate context).run w = .ok s₀ w₀)
    (calls : List (World × List UInt8))
    (hpushes : ∀ outcome ∈ outcomes engine context s₀ calls, ∃ updates t, outcome = .ok updates t)
    (final : World) :
    ((∃ transcript t,
      (StreamingSession.finish engine context).run
      ((afterPushes engine context s₀ calls).setWorld final) = .ok transcript t) ↔
      (calls.map Prod.snd).flatten.length % 2 = 0 ∧ 0 < (calls.map Prod.snd).flatten.length) ∧
    ((afterPushes engine context s₀ calls).decoder.samples ≠ [] →
      ∀ drained,
      (StreamingSession.drainResidual engine.backend).run
      ((afterPushes engine context s₀ calls).setWorld final) = .ok () drained →
      drained.currentHasAudio = true ∨ drained.lastFinal ≠ none) := by
  cases eq_live hlive
  obtain ⟨hr, rfl, -⟩ := startStream_eq_ok hopen
  have h :=
    ((opened_sounded engine rate (nextStream w.history) w₀).pushes hr calls hpushes).setWorld final
  rw [List.nil_append] at h
  refine ⟨h.finish_iff hr hbackend,
    fun hdecoded drained hdrain => h.drained (fun hnil => hdecoded ?_) hdrain⟩
  exact (congrArg IncrementalPcm16.samples h.tracks.decoder).trans hnil

/-- A session that has closed one utterance can be finished. -/
theorem two_frames_can_be_finished :
    ∃ s₀ w₀, (briefEngine.startStream 16000 .live).run ⟨[], 0, 0, 0⟩ = .ok s₀ w₀ ∧
      ∃ transcript t, (StreamingSession.finish briefEngine .live).run
        ((afterPushes briefEngine .live s₀ [(w₀, twoFrames)]).setWorld w₀) = .ok transcript t := by
  obtain ⟨w₀, hopen⟩ := briefEngine_opens
  have hbackend : NeverFails briefEngine.backend := fun _ _ => ⟨"word", rfl⟩
  obtain ⟨updates, s, -, -, hpushes, -⟩ := briefEngine_hears hopen
  rw [run_collect_singleton] at hpushes
  obtain ⟨hfinish, -⟩ :=
    finish_succeeds_iff_whole_samples hbackend (fun _ => ⟨rfl, rfl⟩) hopen [(w₀, twoFrames)]
    (fun outcome hmem => ⟨updates, s, (List.mem_singleton.mp hmem).trans hpushes⟩) w₀
  rw [List.map_singleton, List.flatten_singleton, length_twoFrames] at hfinish
  exact ⟨_, w₀, hopen, hfinish.mpr ⟨by decide, by decide⟩⟩

end

end ImpossibleVoice.Stt
