import ImpossibleVoice.Server.VoiceBackend
import ImpossibleVoice.Tts.Engine

namespace ImpossibleVoice.Server

open Lib Audio Tts
open Stt (RequestContext)

def errorClass {α σ : Type} : EStateM.Result TtsError σ α → Option VoiceBackendError
  | .ok _ _ => none
  | .error e _ => some (mapTtsError e)

structure Usable (limits : TtsLimits) (generated : GeneratedAudio) : Prop where
  length : generated.samples.length ≤ limits.maxOutputSamples
  rate : generated.sampleRate ∈ supportedSampleRates
  nonempty : generated.samples ≠ []
  valid : generated.samples.any F32.invalid = false

variable {engine : TtsEngine} {text : String} {speed : F32} {context : RequestContext} {w : World}

def Live (context : RequestContext) : Prop :=
  ∀ time, context.cancelled time = false ∧ context.expired time = false

theorem synthesize_broken (h : BreaksRules engine.limits text speed) :
    (engine.synthesize text speed context).run w = .error .invalidInput w := by
  rw [TtsEngine.synthesize, run_bind_of_error (run_failIf_pos h _ _)]

theorem synthesize_kept (h : ¬ BreaksRules engine.limits text speed) (hlive : Live context) :
    (engine.synthesize text speed context).run w =
      if engine.limits.maxConcurrent ≤ w.active then .error .busy w.observe
      else (ending World.release (do
        let generated ← generate engine.backend (engine.call text speed)
        engine.publish context generated)).run w.observe.hold := by
  rw [TtsEngine.synthesize, run_bind_of_ok (run_failIf_neg h _ _),
    run_bind_of_ok (run_ensureActive_ok (hlive _).1 (hlive _).2)]
  have hacquire := run_acquire engine.limits.maxConcurrent w.observe
  by_cases hfull : engine.limits.maxConcurrent ≤ w.active
  · rw [if_pos (show engine.limits.maxConcurrent ≤ w.observe.active from hfull)] at hacquire
    rw [if_pos hfull, run_bind_of_error hacquire]
  · rw [if_neg (show ¬ engine.limits.maxConcurrent ≤ w.observe.active from hfull)] at hacquire
    rw [if_neg hfull, run_bind_of_ok hacquire]

theorem publish_usable (hlive : Live context) {generated : GeneratedAudio}
    (h : Usable engine.limits generated) :
    ∃ synthesis, (engine.publish context generated).run w = .ok synthesis w.observe := by
  have hnew :=
    MonoPcm.new_eq_ok (m := ⟨generated.sampleRate, generated.samples.map F32.value, h.rate,
    by simpa using h.nonempty, F32.value_in_range h.valid⟩) |>.mpr
      ⟨h.rate, h.nonempty, h.valid, rfl, rfl⟩
  obtain ⟨audio, hnew⟩ : ∃ audio, MonoPcm.new generated.sampleRate generated.samples = .ok audio :=
    ⟨_, hnew⟩
  refine ⟨⟨audio, engine.limits.maxChunkSamples, engine.chunk_ne_zero⟩, ?_⟩
  rw [TtsEngine.publish, run_bind_of_ok (run_ensureActive_ok (hlive _).1 (hlive _).2),
    run_bind_of_ok (run_failIf_neg (Nat.not_lt.mpr h.length) _ _), hnew]
  rfl

theorem publish_unusable (hlive : Live context) {generated : GeneratedAudio}
    (h : ¬ Usable engine.limits generated) :
    (engine.publish context generated).run w = .error .output w.observe := by
  rw [TtsEngine.publish, run_bind_of_ok (run_ensureActive_ok (hlive _).1 (hlive _).2)]
  by_cases hlength : engine.limits.maxOutputSamples < generated.samples.length
  · rw [run_bind_of_error (run_failIf_pos hlength _ _)]
  · rw [run_bind_of_ok (run_failIf_neg hlength _ _)]
    cases hnew : MonoPcm.new generated.sampleRate generated.samples with
    | ok audio =>
        obtain ⟨hrate, hnonempty, hvalid, -⟩ := MonoPcm.new_eq_ok.mp hnew
        exact absurd ⟨Nat.not_lt.mp hlength, hrate, hnonempty, hvalid⟩ h
    | error e => rfl

/-- What a synthesis within the rules reports, given a free permit: it depends on
what the engine returns. -/
theorem errorClass_kept (h : ¬ BreaksRules engine.limits text speed) (hlive : Live context)
    (hfree : w.active < engine.limits.maxConcurrent) :
    (∀ e, engine.backend w.history (engine.call text speed) = .error e →
      errorClass ((engine.synthesize text speed context).run w) = some (mapTtsError e)) ∧
    ∀ generated, engine.backend w.history (engine.call text speed) = .ok generated →
    (Usable engine.limits generated →
      errorClass ((engine.synthesize text speed context).run w) = none) ∧
    (¬ Usable engine.limits generated →
      errorClass ((engine.synthesize text speed context).run w) = some .invalidInput) := by
  rw [synthesize_kept h hlive, if_neg (Nat.not_le.mpr hfree), run_ending]
  have hgenerate := run_generate engine.backend (engine.call text speed) w.observe.hold
  refine ⟨fun e hreply => ?_, fun generated hreply => ⟨fun husable => ?_, fun hbad => ?_⟩⟩
  · rw [show engine.backend w.observe.hold.history (engine.call text speed) =
      _ from hreply] at hgenerate
    rw [run_bind_of_error hgenerate]
    rfl
  · rw [show engine.backend w.observe.hold.history (engine.call text speed) =
      _ from hreply] at hgenerate
    obtain ⟨synthesis, hpublish⟩ : ∃ synthesis, (engine.publish context generated).run
        (w.observe.hold.exchanged (engine.call text speed) (.ok generated)) = .ok synthesis _ :=
      publish_usable hlive husable
    rw [run_bind_of_ok hgenerate, hpublish]
    rfl
  · rw [show engine.backend w.observe.hold.history (engine.call text speed) =
      _ from hreply] at hgenerate
    rw [run_bind_of_ok hgenerate, publish_unusable hlive hbad]
    rfl

/-- Only a bad request is reported as a bad request, and unusable output as an
engine failure. -/
structure BlamesRightly (engine : TtsEngine) (text : String) (speed : F32)
    (context : RequestContext) (w : World) : Prop where
  request : errorClass ((engine.synthesize text speed context).run w) = some .invalidInput ↔
    BreaksRules engine.limits text speed
  output : ¬ BreaksRules engine.limits text speed → w.active < engine.limits.maxConcurrent →
    ∀ generated, engine.backend w.history (engine.call text speed) = .ok generated →
      ¬ Usable engine.limits generated →
      errorClass ((engine.synthesize text speed context).run w) = some .engine

/-- The blame is right exactly when the engine's output, if it is asked for any,
is usable. -/
theorem blame_is_right_iff_output_is_usable (synthesizer : OfflineTts) {engine : TtsEngine}
    (hnative : engine.backend = nativeBackend synthesizer) (text : String) (speed : F32)
    {context : RequestContext} (hlive : Live context) (w : World) :
    BlamesRightly engine text speed context w ↔
      BreaksRules engine.limits text speed ∨ engine.limits.maxConcurrent ≤ w.active ∨
    ∀ generated, engine.backend w.history (engine.call text speed) = .ok generated →
    Usable engine.limits generated := by
  have hnever (e : TtsError) (h : engine.backend w.history (engine.call text speed) = .error e) :
      e = .engine := by
    rw [hnative, nativeBackend] at h
    cases hsynthesizer : synthesizer w.history (engine.call text speed) with
    | ok generated => rw [hsynthesizer] at h; cases h
    | error native => rw [hsynthesizer] at h; cases h; rfl
  by_cases hbroken : BreaksRules engine.limits text speed
  · refine ⟨fun _ => .inl hbroken,
      fun _ => ⟨⟨fun _ => hbroken, fun _ => ?_⟩, fun hkept => absurd hbroken hkept⟩⟩
    rw [synthesize_broken hbroken]
    rfl
  by_cases hfull : engine.limits.maxConcurrent ≤ w.active
  · refine ⟨fun _ => .inr (.inl hfull), fun _ => ⟨⟨fun hclass => ?_, fun h => absurd h hbroken⟩,
      fun _ hfree => absurd hfull (Nat.not_le.mpr hfree)⟩⟩
    rw [synthesize_kept hbroken hlive, if_pos hfull] at hclass
    cases hclass
  obtain ⟨hfailed, hreturned⟩ := errorClass_kept hbroken hlive (Nat.not_le.mp hfull)
  constructor
  · refine fun hblame => .inr (.inr fun generated hreply => ?_)
    by_contra hbad
    exact hbroken (hblame.request.mp ((hreturned generated hreply).2 hbad))
  · rintro (h | h | husable)
    · exact absurd h hbroken
    · exact absurd h hfull
    · refine ⟨⟨fun hclass => ?_, fun h => absurd h hbroken⟩, fun _ _ generated hreply hbad =>
        absurd (husable generated hreply) hbad⟩
      cases hreply : engine.backend w.history (engine.call text speed) with
      | ok generated =>
          rw [(hreturned generated hreply).1 (husable generated hreply)] at hclass
          cases hclass
      | error e =>
          rw [hfailed e hreply, hnever e hreply] at hclass
          cases hclass

def voiceOf (level : ℚ) : OfflineTts := fun _ _ => .ok ⟨[.finite level], 22050⟩

def speechEngine (level : ℚ) : TtsEngine :=
  ⟨nativeBackend (voiceOf level), .default, by decide, by decide, by decide, by decide⟩

/-- Within full scale. -/
theorem blame_is_right_for_a_quiet_sample :
    BlamesRightly (speechEngine (1 / 2)) "hello" (.finite 1) .live ⟨[], 0, 0, 0⟩ := by
  refine (blame_is_right_iff_output_is_usable (voiceOf (1 / 2)) rfl "hello" (.finite 1)
    (fun _ => ⟨rfl, rfl⟩)
    ⟨[], 0, 0, 0⟩).mpr (.inr (.inr ?_))
  intro generated hreply
  cases hreply
  exact ⟨by decide, by decide, by decide, by decide +kernel⟩

/-- A sample above full scale is blamed on the request. -/
theorem a_loud_sample_is_blamed_on_the_request :
    ¬ BreaksRules (speechEngine 2).limits "hello" (.finite 1) ∧
    errorClass (((speechEngine 2).synthesize "hello" (.finite 1) .live).run ⟨[], 0, 0, 0⟩) =
      some .invalidInput ∧
    ¬ BlamesRightly (speechEngine 2) "hello" (.finite 1) .live ⟨[], 0, 0, 0⟩ := by
  have hkept : ¬ BreaksRules (speechEngine 2).limits "hello" (.finite 1) := by decide +kernel
  have hbad : ¬ Usable (speechEngine 2).limits ⟨[.finite 2], 22050⟩ := fun h =>
    absurd h.valid (by decide +kernel)
  have hlive : Live .live := fun _ => ⟨rfl, rfl⟩
  have hfree : (⟨[], 0, 0, 0⟩ : World).active < (speechEngine 2).limits.maxConcurrent := by decide
  have hclass := ((errorClass_kept hkept hlive hfree).2 ⟨[.finite 2], 22050⟩ rfl).2 hbad
  exact ⟨hkept, hclass, fun hblame => hkept (hblame.request.mp hclass)⟩

end ImpossibleVoice.Server
