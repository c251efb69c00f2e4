import ImpossibleVoice.Stt.StreamBounds
import ImpossibleVoice.Stt.Totality

namespace ImpossibleVoice.Stt

open Lib Audio

def ReportsEngine (backend : Backend) : Prop :=
  ∀ history call e, backend history call = .error e → e = .engine

def Broken (e : SttError) : Prop := e = .engine ∨ e = .cancelled ∨ e = .deadlineExceeded

/-- A program that fails only where the backend or the context does. -/
abbrev OnlyBreaks {σ α : Type} (m : EStateM SttError σ α) : Prop :=
  Triple (fun _ => True) m (fun _ _ => True) fun e _ => Broken e

section

variable {σ α β : Type}

theorem OnlyBreaks.bind {m : EStateM SttError σ α} {f : α → EStateM SttError σ β}
    (hm : OnlyBreaks m) (hf : ∀ a, OnlyBreaks (f a)) : OnlyBreaks (m >>= f) :=
  Triple.bind hm hf

theorem OnlyBreaks.gets (f : σ → α) : OnlyBreaks (Lib.gets f : EStateM SttError σ α) :=
  Triple.gets fun _ _ => trivial

theorem OnlyBreaks.modify (f : σ → σ) : OnlyBreaks (modify f : EStateM SttError σ PUnit) :=
  Triple.modify fun _ _ => trivial

theorem OnlyBreaks.pure (a : α) : OnlyBreaks (Pure.pure a : EStateM SttError σ α) :=
  Triple.pure fun _ _ => trivial

theorem OnlyBreaks.failIf {p : Prop} [Decidable p] {e : SttError} (h : Broken e) :
    OnlyBreaks (Lib.failIf p e : EStateM SttError σ Unit) :=
  (Triple.failIf fun _ _ _ => h).conseq (fun _ h => h) (fun _ _ _ => trivial) fun _ _ h => h

theorem onWorld_onlyBreaks {m : EStateM SttError World α} (h : OnlyBreaks m) :
    OnlyBreaks (onWorld m) :=
  Triple.zoom h (fun _ _ => trivial) (fun _ _ _ _ _ => trivial) fun _ _ _ _ he => he

end

section

variable {backend : Backend}

theorem ensureActive_onlyBreaks (context : RequestContext) : OnlyBreaks (ensureActive context) := by
  refine (OnlyBreaks.gets _).bind fun time => (OnlyBreaks.modify _).bind fun _ => ?_
  exact (OnlyBreaks.failIf (.inr (.inl rfl))).bind fun _ => OnlyBreaks.failIf (.inr (.inr rfl))

theorem check_onlyBreaks (context : RequestContext) : OnlyBreaks (onWorld (ensureActive context)) :=
  onWorld_onlyBreaks (ensureActive_onlyBreaks context)

theorem invoke_onlyBreaks (h : ReportsEngine backend) (call : BackendCall) :
    OnlyBreaks (invoke backend call) := by
  refine (OnlyBreaks.gets _).bind fun history => (OnlyBreaks.modify _).bind fun _ => ?_
  intro w _
  cases hreply : backend history call with
  | ok text => trivial
  | error e => exact .inl (h history call e hreply)

theorem openStream_onlyBreaks (h : ReportsEngine backend) : OnlyBreaks (openStream backend) :=
  (OnlyBreaks.gets _).bind fun _ => (invoke_onlyBreaks h _).bind fun _ => OnlyBreaks.pure _

theorem accept_onlyBreaks (h : ReportsEngine backend) (samples : List ℚ) :
    OnlyBreaks (StreamingSession.accept backend samples) :=
  (OnlyBreaks.gets _).bind fun _ => (onWorld_onlyBreaks (invoke_onlyBreaks h _)).bind fun _ =>
    OnlyBreaks.modify _

theorem endUtterance_onlyBreaks (h : ReportsEngine backend) (context : RequestContext) :
    OnlyBreaks (StreamingSession.endUtterance backend context) := by
  refine (OnlyBreaks.gets _).bind fun _ =>
    (onWorld_onlyBreaks (invoke_onlyBreaks h _)).bind fun _ => ?_
  refine (check_onlyBreaks context).bind fun _ => (OnlyBreaks.modify _).bind fun _ => ?_
  exact (onWorld_onlyBreaks (openStream_onlyBreaks h)).bind fun _ =>
    (OnlyBreaks.modify _).bind fun _ => OnlyBreaks.pure _

theorem showInterim_onlyBreaks (h : ReportsEngine backend) :
    OnlyBreaks (StreamingSession.showInterim backend) := by
  refine (OnlyBreaks.gets _).bind fun _ =>
    (onWorld_onlyBreaks (invoke_onlyBreaks h _)).bind fun _ => ?_
  refine (OnlyBreaks.gets _).bind fun _ => ?_
  split
  · exact (OnlyBreaks.modify _).bind fun _ => OnlyBreaks.pure _
  · exact OnlyBreaks.pure _

theorem processFrame_onlyBreaks (h : ReportsEngine backend) (context : RequestContext)
    {frame : List ℚ} (hlen : frame.length = vadFrame + 1) :
    OnlyBreaks (StreamingSession.processFrame backend context frame) := by
  have hframe : frame.length = 320 := hlen
  refine (check_onlyBreaks context).bind fun _ => (accept_onlyBreaks h frame).bind fun _ => ?_
  refine OnlyBreaks.bind (processVad_total (List.ne_nil_of_length_pos (by omega)) (by omega)).triple
    fun event => ?_
  split
  · exact endUtterance_onlyBreaks h context
  · exact showInterim_onlyBreaks h

end

structure Untouched (s t : StreamingSession) : Prop where
  fields : t = s.setWorld t.world
  world : t.world = s.world ∨ t.world = s.world.observe

section

variable {rate : Nat} {taken bytes : List UInt8} {s : StreamingSession} {context : RequestContext}

theorem check_triple :
    Triple (fun t => t = s) (onWorld (ensureActive context)) (fun _ t => t = s.observed) fun e _ =>
      Broken e := by
  rintro t rfl
  cases hrun : (onWorld (ensureActive context)).run t with
  | ok u t' => exact run_check_eq_ok hrun
  | error e t' => exact (check_onlyBreaks context).error trivial hrun

theorem decoder_refuses (hr : rate ∈ supportedSampleRates) (h : InStep rate taken s) :
    Triple (fun t => t = s.observed)
      (zoom StreamingSession.decoder StreamingSession.setDecoder (fun _ => SttError.audio)
      (IncrementalPcm16.push bytes)) (Decoded rate taken bytes) fun e t => Broken e ∨
        Untouched s t := by
  rintro t rfl
  have hdecoder :=
    decoder_triple hr taken bytes s.observed ⟨h.decoder, h.resampler, h.residual, h.admits⟩
  rw [run_zoom] at hdecoder ⊢
  cases hpush : (IncrementalPcm16.push bytes).run s.observed.decoder with
  | ok decoded decoder =>
      rw [hpush] at hdecoder
      exact hdecoder
  | error e decoder =>
      obtain rfl := IncrementalPcm16.push_eq_error hpush
      exact .inr ⟨rfl, .inr rfl⟩

theorem pushPcm16_refuses (hr : rate ∈ supportedSampleRates) {engine : SttEngine}
    (hengine : ReportsEngine engine.backend) (h : InStep rate taken s) :
    Triple (fun t => t = s) (StreamingSession.pushPcm16 engine context bytes) (fun _ _ => True)
      fun e t => Broken e ∨ Untouched s t := by
  refine at_gets ?_
  refine Triple.bind (Triple.failIf ?_) fun _ => ?_
  · rintro t rfl -
    exact .inr ⟨rfl, .inl rfl⟩
  refine Triple.bind
    (check_triple.conseq (fun _ ht => ht.1) (fun _ _ ht => ht) fun _ _ he => .inl he) fun _ => ?_
  refine Triple.bind (decoder_refuses hr h) fun decoded => ?_
  split
  case isTrue hnil => exact Triple.pure fun _ _ => trivial
  case isFalse hne =>
    -- From here on nothing refuses: the resampler and the detector take what was admitted.
    refine Triple.bind (resampler_triple hr taken bytes hne) fun converted => ?_
    refine Triple.conseq (P := fun _ => True) (Q := fun _ _ => True) (E := fun e _ => Broken e) ?_
      (fun _ _ => trivial)
      (fun _ _ _ => trivial) fun _ _ he => .inl he
    refine (OnlyBreaks.gets _).bind fun residual => (OnlyBreaks.modify _).bind fun _ => ?_
    refine OnlyBreaks.bind (Triple.collect_mem fun frame hframe => ?_) fun updates => ?_
    · exact processFrame_onlyBreaks hengine context (blocks_length_eq hframe)
    · exact (check_onlyBreaks context).bind fun _ => OnlyBreaks.pure _

/-- The outcomes of further calls, with what others did to the world in between. -/
def outcomes (engine : SttEngine) (context : RequestContext) (s : StreamingSession) :
    List (World × List UInt8) → List (EStateM.Result SttError StreamingSession (List Transcript))
  | [] => []
  | (world, bytes) :: calls =>
    (StreamingSession.pushPcm16 engine context bytes).run (s.setWorld world) ::
      outcomes engine context
        (reached ((StreamingSession.pushPcm16 engine context bytes).run (s.setWorld world))) calls

theorem outcomes_congr (engine : SttEngine) (context : RequestContext) {s t : StreamingSession}
    (h : ∀ world, t.setWorld world = s.setWorld world) (calls : List (World × List UInt8)) :
    outcomes engine context t calls = outcomes engine context s calls ∧
    ∀ world,
      (afterPushes engine context t calls).setWorld world =
      (afterPushes engine context s calls).setWorld world := by
  cases calls with
  | nil => exact ⟨rfl, h⟩
  | cons call calls =>
      rw [outcomes, outcomes, afterPushes, afterPushes, h call.1]
      exact ⟨rfl, fun _ => rfl⟩

/-- A refused frame makes no call of the backend and changes no field, so the session goes
on as if it had not been sent. -/
theorem refused_frames_leave_no_trace {engine : SttEngine}
    (hlimits : engine.limits.audio = .default) (hengine : ReportsEngine engine.backend)
    {rate : Nat} {context : RequestContext} {w w₀ : World} {s₀ : StreamingSession}
    (hopen : (engine.startStream rate context).run w = .ok s₀ w₀)
    (calls : List (World × List UInt8)) (world : World) (bytes : List UInt8) {e : SttError}
    {t : StreamingSession}
    (hpush : (StreamingSession.pushPcm16 engine context bytes).run
      ((afterPushes engine context s₀ calls).setWorld world) = .error e t)
    (he : e = .invalidInput ∨ e = .audio) :
    t.world.history = world.history ∧ t.world.active = world.active ∧
    t = (afterPushes engine context s₀ calls).setWorld t.world ∧
    ∀ (later : List (World × List UInt8)) (final : World),
      outcomes engine context t later =
      outcomes engine context (afterPushes engine context s₀ calls) later ∧
    (StreamingSession.finish engine context).run
      ((afterPushes engine context t later).setWorld final) =
      (StreamingSession.finish engine context).run
      ((afterPushes engine context (afterPushes engine context s₀ calls) later).setWorld
      final) := by
  obtain ⟨hr, rfl, -⟩ := startStream_eq_ok hopen
  obtain ⟨taken, h⟩ :=
    afterPushes_inStep hr engine context calls ⟨[], opened_inStep hlimits rate _ w₀⟩
  generalize afterPushes engine context (opened engine rate (nextStream w.history) w₀) calls =
    s at h hpush ⊢
  have hworld : InStep rate taken (s.setWorld world) :=
    ⟨h.decoder, h.resampler, h.residual, h.admits⟩
  obtain hbroken | ⟨hfields, hclock⟩ := (pushPcm16_refuses hr hengine hworld).error rfl hpush
  · obtain rfl | rfl := he <;> obtain hno | hno | hno := hbroken <;> cases hno
  · have hsame (final : World) : t.setWorld final = s.setWorld final := by rw [hfields]; rfl
    refine ⟨?_, ?_, hfields, fun later final => ?_⟩
    · obtain hclock | hclock := hclock <;> rw [hclock] <;> rfl
    · obtain hclock | hclock := hclock <;> rw [hclock] <;> rfl
    · obtain ⟨houtcomes, hafter⟩ := outcomes_congr engine context hsame later
      rw [hafter final]
      exact ⟨houtcomes, rfl⟩

/-- An empty frame after half a sample. -/
theorem an_empty_frame_leaves_no_trace :
    ∃ s₀ w₀ t, (defaultEngine.startStream 16000 .live).run ⟨[], 0, 0, 0⟩ = .ok s₀ w₀ ∧
    (StreamingSession.pushPcm16 defaultEngine .live []).run
      ((afterPushes defaultEngine .live s₀ [(w₀, [1])]).setWorld w₀) = .error .invalidInput t ∧
    t.world.history = w₀.history ∧
    t = (afterPushes defaultEngine .live s₀ [(w₀, [1])]).setWorld t.world := by
  obtain ⟨w₀, hopen⟩ := defaultEngine_opens
  have hengine : ReportsEngine defaultEngine.backend := fun _ _ _ herror => by cases herror
  have hpush : (StreamingSession.pushPcm16 defaultEngine .live []).run
      ((afterPushes defaultEngine .live (opened defaultEngine 16000 0 w₀) [(w₀, [1])]).setWorld
        w₀) =
      .error .invalidInput
        ((afterPushes defaultEngine .live (opened defaultEngine 16000 0 w₀) [(w₀, [1])]).setWorld
        w₀) := by
    rw [StreamingSession.pushPcm16, run_bind_of_ok (run_gets _ _),
      run_bind_of_error (run_failIf_pos (.inr (.inl rfl)) _ _)]
  obtain ⟨hhistory, -, hfields, -⟩ :=
    refused_frames_leave_no_trace rfl hengine hopen [(w₀, [1])] w₀ [] hpush (.inl rfl)
  exact ⟨_, w₀, _, hopen, hpush, hhistory, hfields⟩

end

end ImpossibleVoice.Stt
