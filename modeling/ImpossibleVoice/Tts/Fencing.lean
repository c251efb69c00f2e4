import ImpossibleVoice.Stt.Fencing
import ImpossibleVoice.Stt.Fragmentation
import ImpossibleVoice.Tts.Rules

namespace ImpossibleVoice.Tts

open Lib Audio
open Stt (RequestContext StreamingSession SttEngine)

def World.moment (w : World) : Moment := ⟨w.history.length, w.time, w.returned⟩

/-- Errors with another reason than the context: the input, the limiter, the
output, or the backend's own answer. -/
def OwnError (e : TtsError) (w : World) : Prop :=
  e = .invalidInput ∨ e = .busy ∨ e = .output ∨ ∃ call, w.history.getLast? = some ⟨call, .error e⟩

abbrev ttsStop (context : RequestContext) : Nat → Option TtsError :=
  context.stop .cancelled .deadlineExceeded

def Explained (context : RequestContext) (e : TtsError) (w : World) : Prop :=
  OwnError e w ∨ StoppedBy (ttsStop context) e w.moment

variable {context : RequestContext} {start : Moment}

theorem run_ensureActive (context : RequestContext) (w : World) : (ensureActive context).run w =
    match ttsStop context w.time with
    | some e => .error e w.observe
    | none => .ok () w.observe := by
  rw [ensureActive, run_bind_of_ok (run_gets _ _), run_bind_of_ok (EStateM.run_modify _ _), ttsStop,
    RequestContext.stop]
  by_cases hc : context.cancelled w.time = true
  · rw [run_bind_of_error (run_failIf_pos hc _ _), if_pos hc]
  · rw [run_bind_of_ok (run_failIf_neg hc _ _), if_neg hc]
    by_cases he : context.expired w.time = true
    · rw [run_failIf_pos he, if_pos he]
    · rw [run_failIf_neg he, if_neg he]

theorem fencing (hgood : context.StopsForGood) (backend : Backend) (start : Moment) :
    Rules backend context (fun w => Timely start w.moment)
      (fun w => Fenced (ttsStop context) start w.moment) (Explained context) where
  check := by
    intro w hw
    have hobserve : Timely start w.observe.moment := hw.imp id fun h => Nat.le_succ_of_le h
    rw [run_ensureActive]
    cases hstop : ttsStop context w.time with
    | some e => exact .inr ⟨w.time, rfl, hstop⟩
    | none =>
        have hfenced : Fenced (ttsStop context) start w.moment :=
          Timely.fenced (hgood.oneWay _ _) hw hstop
        exact ⟨hobserve, hfenced⟩
  call call := by
    intro w _
    rw [run_generate]
    cases backend w.history call with
    | ok generated => exact .inr (Nat.le_refl _)
    | error e => exact .inl (.inr (.inr (.inr ⟨call, List.getLast?_concat⟩)))
  output _ _ := .inl (.inr (.inr (.inl rfl)))

theorem triple_acquire (maximum : Nat) :
    Triple (fun w => Timely start (World.moment w)) (acquire maximum)
      (fun _ w => Timely start w.moment) (Explained context) := by
  intro w hw
  by_cases hfull : maximum ≤ w.active
  · rw [run_acquire, if_pos hfull]
    exact .inl (.inr (.inl rfl))
  · rw [run_acquire, if_neg hfull]
    exact hw

namespace TtsEngine

theorem synthesize_triple (hgood : context.StopsForGood) (engine : TtsEngine) (text : String)
    (speed : F32) :
    Triple (fun w => Timely start (World.moment w)) (engine.synthesize text speed context)
      (fun _ w => Fenced (ttsStop context) start w.moment) (Explained context) := by
  have rules := fencing hgood engine.backend start
  apply Rules.synthesize engine text speed
  · exact fun _ _ => .inl (.inl rfl)
  · exact rules.check.conseq (fun _ h => h) (fun _ _ h => h.1) fun _ _ h => h
  · exact triple_acquire _
  · exact rules
  · exact fun _ _ h => h
  · exact fun _ _ h => h

theorem synthesize_fences (hgood : context.StopsForGood) (engine : TtsEngine) (text : String)
    (speed : F32) (w : World) :
    Fences (ttsStop context) World.moment OwnError (engine.synthesize text speed context) w := by
  refine Fences.of_triple (fun hstopped => ?_) (synthesize_triple hgood engine text speed)
  by_cases hbroken : BreaksRules engine.limits text speed
  · exact ⟨.invalidInput,
      w, by rw [synthesize, run_bind_of_error (run_failIf_pos hbroken _ _)], rfl⟩
  · obtain ⟨e, hstop⟩ := Option.ne_none_iff_exists'.mp hstopped
    refine ⟨e, w.observe, ?_, rfl⟩
    have hcheck := run_ensureActive context w
    rw [show ttsStop context w.time = some e from hstop] at hcheck
    rw [synthesize, run_bind_of_ok (run_failIf_neg hbroken _ _), run_bind_of_error hcheck]

end TtsEngine

/-- No transcript and no audio that was computed after the stop is published. -/
theorem results_are_fenced_after_a_stop {context : RequestContext} (hgood : context.StopsForGood) :
    (∀ (engine : SttEngine) (audio : MonoPcm) (w : Stt.World),
      Fences context.sttStop Stt.World.moment Stt.OwnError (engine.transcribe audio context) w) ∧
    (∀ (engine : SttEngine) (bytes : List UInt8) (s : StreamingSession),
      Fences context.sttStop StreamingSession.moment (fun e t => Stt.OwnError e t.world)
        (StreamingSession.pushPcm16 engine context bytes) s) ∧
    (∀ (engine : SttEngine) (s : StreamingSession),
      Fences context.sttStop StreamingSession.moment (fun e t => Stt.OwnError e t.world)
        (StreamingSession.finish engine context) s) ∧
    ∀ (engine : TtsEngine) (text : String) (speed : F32) (w : World),
      Fences (ttsStop context) World.moment OwnError (engine.synthesize text speed context) w :=
  ⟨SttEngine.transcribe_fences hgood, StreamingSession.pushPcm16_fences hgood,
    StreamingSession.finish_fences hgood,
    TtsEngine.synthesize_fences hgood⟩

def cancelledAt (time : Nat) : RequestContext := ⟨fun t => decide (time ≤ t), fun _ => false⟩

theorem stopsForGood_cancelledAt (time : Nat) : (cancelledAt time).StopsForGood := by
  refine ⟨fun t t' hle h => ?_, fun _ _ _ h => h⟩
  exact decide_eq_true ((of_decide_eq_true h).trans hle)

theorem silence_rate : 16000 ∈ supportedSampleRates := by decide

theorem silence_ne_nil : ([0] : List ℚ) ≠ [] := List.cons_ne_nil _ _

theorem silence_in_range : ∀ s ∈ ([0] : List ℚ), -1 ≤ s ∧ s ≤ 1 :=
  List.forall_mem_singleton.mpr ⟨neg_one_lt_zero.le, zero_le_one⟩

def silence : MonoPcm := ⟨16000, [0], silence_rate, silence_ne_nil, silence_in_range⟩

/-- Cancelled from the start a session hears nothing; cancelled in its last call a
transcription is not published; cancelled after that it has been. -/
theorem a_token_is_heeded_at_any_time :
    (∃ e t,
      (StreamingSession.pushPcm16 Stt.defaultEngine (cancelledAt 0) [1, 2]).run
      (Stt.opened Stt.defaultEngine 16000 0 ⟨[], 0, 1, 0⟩) = .error e t ∧ t.moment.calls = 0) ∧
    (∃ e t, (Stt.defaultEngine.transcribe silence (cancelledAt 5)).run ⟨[], 0, 0, 0⟩ = .error e t ∧
      t.moment.calls = 3 ∧ StoppedBy (cancelledAt 5).sttStop e t.moment) ∧
    ∃ text t,
      (Stt.defaultEngine.transcribe silence (cancelledAt 9)).run ⟨[], 0, 0, 0⟩ = .ok text t ∧
    t.moment.calls = 3 ∧ (cancelledAt 9).sttStop t.moment.returned = none := by
  have hearly := results_are_fenced_after_a_stop (stopsForGood_cancelledAt 0)
  have hduring := results_are_fenced_after_a_stop (stopsForGood_cancelledAt 5)
  have hlate := results_are_fenced_after_a_stop (stopsForGood_cancelledAt 9)
  refine ⟨(hearly.2.1 Stt.defaultEngine [1, 2]
    (Stt.opened Stt.defaultEngine 16000 0 ⟨[], 0, 1, 0⟩)).before (by decide),
    ⟨.cancelled,
      ⟨[⟨.stream 0, .ok "word"⟩, ⟨.accept 0 [0], .ok "word"⟩, ⟨.finish 0, .ok "word"⟩], 6, 0, 5⟩,
      rfl, rfl, ?_⟩,
    ⟨"word",
      ⟨[⟨.stream 0, .ok "word"⟩, ⟨.accept 0 [0], .ok "word"⟩, ⟨.finish 0, .ok "word"⟩], 6, 0, 5⟩,
      rfl, rfl, ?_⟩⟩
  · obtain hown | hstopped := (hduring.1 Stt.defaultEngine silence ⟨[], 0, 0, 0⟩).reason _ _ rfl
    · rcases hown with h | h | h | ⟨call, h⟩ <;> cases h
    · exact hstopped
  · exact (hlate.1 Stt.defaultEngine silence ⟨[], 0, 0, 0⟩).after _ _ rfl (by decide)

end ImpossibleVoice.Tts
