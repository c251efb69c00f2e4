import ImpossibleVoice.Audio.LimitExactness
import ImpossibleVoice.Lib.Agreement
import ImpossibleVoice.Native.Wrapper
import ImpossibleVoice.Stt.Batch
import ImpossibleVoice.Tts.Engine

namespace ImpossibleVoice.Native

open Lib Audio
open Stt (BackendCall StreamingSession SttEngine SttError Transcript)
open Tts (GenerateCall NativeError OfflineTts TtsEngine)

abbrev OnlineRecognizer := List Stt.Exchange → BackendCall → Except NativeError String

/-- The field of the stream: `finish` sets it whatever follows. -/
def finishedIn (history : List Stt.Exchange) (stream : Nat) : Bool :=
  history.any fun e => decide (e.call = .finish stream)

/-- The error with which `accept` and `finish` refuse a call. -/
def streamRefusal (history : List Stt.Exchange) : BackendCall → Option NativeError
  | .accept stream samples =>
    if acceptRefuses (finishedIn history stream) (samples.map .finite) = true then
      some ⟨"speech stream input is invalid"⟩
    else none
  | .finish stream =>
      if finishedIn history stream = true then some ⟨"speech stream is already finished"⟩ else none
  | .stream _ | .interim _ => none

def checkedRecognizer (recognizer : OnlineRecognizer) : OnlineRecognizer := fun history call =>
  match streamRefusal history call with
  | some error => .error error
  | none => recognizer history call

def recognizerBackend (recognizer : OnlineRecognizer) : Stt.Backend := fun history call =>
  (recognizer history call).mapError fun _ => .engine

def checkedSynthesizer (synthesizer : OfflineTts) : OfflineTts := fun history call =>
  if generateRefuses call.text call.speed call.maxSamples = true then
    .error ⟨"speech synthesis input is invalid"⟩
  else synthesizer history call

def listening (engine : SttEngine) (recognizer : OnlineRecognizer) : SttEngine :=
  { engine with backend := recognizerBackend recognizer }

def speaking (engine : TtsEngine) (synthesizer : OfflineTts) : TtsEngine :=
  { engine with backend := Tts.nativeBackend synthesizer }

def dictation (engine : SttEngine) (context : Stt.RequestContext) (pushes : List (List UInt8)) :
    Stt.SessionM (List Transcript × Transcript) := do
  let updates ← collect (StreamingSession.pushPcm16 engine context) pushes
  let transcript ← StreamingSession.finish engine context
  pure (updates, transcript)

theorem not_finishedIn {history : List Stt.Exchange} {n : Nat} (h : Stt.nextStream history ≤ n) :
    finishedIn history n = false := by
  induction history with
  | nil => rfl
  | cons e history ih =>
      have hcons : Stt.nextStream (e :: history) = max (e.call.id + 1) (Stt.nextStream history) :=
        rfl
      rw [hcons, max_le_iff] at h
      rw [finishedIn, List.any_cons, ← finishedIn, ih h.2, Bool.or_false, decide_eq_false_iff_not]
      intro hcall
      rw [hcall, BackendCall.id] at h
      omega

theorem finishedIn_append (history log : List Stt.Exchange) (n : Nat) :
    finishedIn (history ++ log) n = (finishedIn history n || finishedIn log n) := List.any_append

theorem acceptRefuses_finite {samples : List ℚ} (hne : samples ≠ [])
    (hlen : samples.length ≤ 2 ^ 31 - 1) : acceptRefuses false (samples.map .finite) = false := by
  have hfinite : (samples.map F32.finite).any (fun sample => !sample.isFinite) = false := by
    simp [F32.isFinite]
  have hshort : ¬ 2 ^ 31 - 1 < (samples.map F32.finite).length := by
    rw [List.length_map]
    omega
  rw [acceptRefuses, hfinite, decide_eq_false hshort]
  simp [hne]

section

variable (recognizer : OnlineRecognizer)

theorem checked_of_accepted {history : List Stt.Exchange} {call : BackendCall}
    (h : streamRefusal history call = none) :
    recognizerBackend (checkedRecognizer recognizer) history call =
      recognizerBackend recognizer history call := by
  rw [recognizerBackend, recognizerBackend, checkedRecognizer, h]

theorem alike_invoke {P : Stt.World → Prop} {Q : String → Stt.World → Prop} {call : BackendCall}
    (hok : ∀ w, P w → streamRefusal w.history call = none)
    (hpost : ∀ w text, P w → Q text (w.exchanged call (.ok text))) :
    Alike P (Stt.invoke (recognizerBackend (checkedRecognizer recognizer)) call)
      (Stt.invoke (recognizerBackend recognizer) call) Q := by
  intro w hw
  refine ⟨?_, fun text t hrun => ?_⟩
  · simp only [Stt.invoke, run_bind_of_ok (run_gets _ _), run_bind_of_ok (EStateM.run_modify _ _),
      checked_of_accepted recognizer (hok w hw)]
  · obtain ⟨_, rfl⟩ := Stt.run_invoke_eq_ok hrun
    exact hpost w text hw

theorem alike_openStream :
    Alike (fun _ => True) (Stt.openStream (recognizerBackend (checkedRecognizer recognizer)))
      (Stt.openStream (recognizerBackend recognizer)) fun n w =>
      finishedIn w.history n = false := by
  apply Alike.bind (Alike.gets _)
  intro history
  apply Alike.bind (Q := fun _ w => finishedIn w.history (Stt.nextStream history) = false)
  · apply alike_invoke
    · exact fun _ _ => rfl
    · rintro w text ⟨-, rfl⟩
      show finishedIn (w.history ++ _) _ = false
      rw [finishedIn_append, not_finishedIn le_rfl]
      rfl
  · intro text
    exact Alike.pure fun _ h => h

/-- The stream of the session takes audio, and what waits for it is less than a frame. -/
def Listening (s : StreamingSession) : Prop :=
  finishedIn s.world.history s.stream = false ∧ s.residual.length ≤ Stt.vadFrame

variable {context : Stt.RequestContext}

theorem alike_onWorld {α : Type} {m n : EStateM SttError Stt.World α}
    {P : StreamingSession → Prop} {P' : Stt.World → Prop} {Q : α → StreamingSession → Prop}
    {Q' : α → Stt.World → Prop} (h : Alike P' m n Q') (hP : ∀ s, P s → P' s.world)
    (hQ : ∀ s a w, P s → Q' a w → Q a (s.setWorld w)) : Alike P (Stt.onWorld m) (Stt.onWorld n) Q :=
  Alike.zoom h hP hQ

theorem alike_check {P : StreamingSession → Prop} (hP : ∀ s, P s → P s.observed) :
    Alike P (Stt.onWorld (Stt.ensureActive context)) (Stt.onWorld (Stt.ensureActive context))
      fun _ => P := by
  apply Alike.same
  intro s a t hs hrun
  rw [Stt.run_check_eq_ok hrun]
  exact hP s hs

theorem alike_audio {α τ : Type} {P : StreamingSession → Prop} (read : StreamingSession → τ)
    (write : τ → StreamingSession → StreamingSession) (hP : ∀ u s, P s → P (write u s))
    (m : EStateM AudioError τ α) :
    Alike P (zoom read write (fun _ => SttError.audio) m)
      (zoom read write (fun _ => SttError.audio) m) fun _ => P := by
  apply Alike.same
  intro s a t hs hrun
  obtain ⟨u, _, rfl⟩ := run_zoom_eq_ok hrun
  exact hP u s hs

theorem alike_call {P : StreamingSession → Prop} {Q : String → StreamingSession → Prop}
    {call : BackendCall} (hok : ∀ s, P s → streamRefusal s.world.history call = none)
    (hpost : ∀ s text, P s → Q text (s.setWorld (s.world.exchanged call (.ok text)))) :
    Alike P (Stt.onWorld (Stt.invoke (recognizerBackend (checkedRecognizer recognizer)) call))
      (Stt.onWorld (Stt.invoke (recognizerBackend recognizer) call)) Q := by
  intro s hs
  have hcall :
      Alike (fun w => w = s.world)
      (Stt.invoke (recognizerBackend (checkedRecognizer recognizer)) call)
      (Stt.invoke (recognizerBackend recognizer) call) fun text w =>
        w = s.world.exchanged call (.ok text) := by
    apply alike_invoke
    · rintro w rfl
      exact hok s hs
    · rintro w text rfl
      rfl
  refine alike_onWorld (P := fun t => t = s) hcall ?_ ?_ s rfl
  · rintro t rfl
    rfl
  · rintro t text w rfl rfl
    exact hpost t text hs

theorem alike_accept {samples : List ℚ} (hne : samples ≠ []) (hlen : samples.length ≤ 2 ^ 31 - 1) :
    Alike Listening
      (StreamingSession.accept (recognizerBackend (checkedRecognizer recognizer)) samples)
      (StreamingSession.accept (recognizerBackend recognizer) samples) fun _ => Listening := by
  apply Alike.bind (Alike.gets _)
  intro stream
  apply Alike.bind (Q := fun _ => Listening)
  · apply alike_call
    · rintro s ⟨⟨hopen, -⟩, rfl⟩
      rw [streamRefusal, hopen, acceptRefuses_finite hne hlen]
      rfl
    · rintro s text ⟨⟨hopen, hres⟩, rfl⟩
      refine ⟨?_, hres⟩
      show finishedIn (s.world.history ++ _) s.stream = false
      rw [finishedIn_append, hopen]
      simp [finishedIn]
  · intro text
    exact Alike.modify fun s h => h

theorem alike_endUtterance :
    Alike Listening
      (StreamingSession.endUtterance (recognizerBackend (checkedRecognizer recognizer)) context)
      (StreamingSession.endUtterance (recognizerBackend recognizer) context) fun _ =>
      Listening := by
  apply Alike.bind (Alike.gets _)
  intro stream
  apply Alike.bind (Q := fun _ s => s.residual.length ≤ Stt.vadFrame)
  · apply alike_call
    · rintro s ⟨⟨hopen, -⟩, rfl⟩
      rw [streamRefusal, hopen]
      rfl
    · rintro s text ⟨⟨-, hres⟩, -⟩
      exact hres
  intro text
  apply Alike.bind (alike_check fun _ h => h)
  intro checked
  refine Alike.bind (Q := fun _ s => s.residual.length ≤ Stt.vadFrame)
    (Alike.modify fun _ h => h) fun kept => ?_
  apply Alike.bind
    (Q := fun n s => finishedIn s.world.history n = false ∧ s.residual.length ≤ Stt.vadFrame)
  · apply alike_onWorld (alike_openStream recognizer)
    · exact fun _ _ => trivial
    · exact fun s n w hres hnew => ⟨hnew, hres⟩
  intro next
  refine Alike.bind (Q := fun _ => Listening) (Alike.modify fun _ h => h) fun opened => ?_
  exact Alike.pure fun _ h => h

theorem alike_showInterim :
    Alike Listening
      (StreamingSession.showInterim (recognizerBackend (checkedRecognizer recognizer)))
      (StreamingSession.showInterim (recognizerBackend recognizer)) fun _ => Listening := by
  apply Alike.bind (Alike.gets _)
  intro stream
  apply Alike.bind (Q := fun _ => Listening)
  · apply alike_call
    · exact fun _ _ => rfl
    · rintro s text ⟨⟨hopen, hres⟩, -⟩
      refine ⟨?_, hres⟩
      show finishedIn (s.world.history ++ _) s.stream = false
      rw [finishedIn_append, hopen]
      simp [finishedIn]
  intro text
  apply Alike.bind ((Alike.gets _).conseq (fun _ h => h) fun _ _ h => h.1)
  intro lastInterim
  split
  · refine Alike.bind (Q := fun _ => Listening) (Alike.modify fun _ h => h) fun shown => ?_
    exact Alike.pure fun _ h => h
  · exact Alike.pure fun _ h => h

theorem alike_processFrame {frame : List ℚ} (hframe : frame.length = Stt.vadFrame + 1) :
    Alike Listening
      (StreamingSession.processFrame (recognizerBackend (checkedRecognizer recognizer)) context
      frame) (StreamingSession.processFrame (recognizerBackend recognizer) context frame) fun _ =>
      Listening := by
  have hne : frame ≠ [] := List.ne_nil_of_length_eq_add_one hframe
  have hlen : frame.length ≤ 2 ^ 31 - 1 := by
    rw [hframe, Stt.vadFrame]
    omega
  apply Alike.bind (alike_check fun _ h => h)
  intro checked
  apply Alike.bind (alike_accept recognizer hne hlen)
  intro given
  refine Alike.bind (alike_audio StreamingSession.vad StreamingSession.setVad (fun _ _ h => h) _)
    fun transition => ?_
  split
  · exact alike_endUtterance recognizer
  · exact alike_showInterim recognizer

theorem alike_pushPcm16 (engine : SttEngine) (bytes : List UInt8) :
    Alike Listening
      (StreamingSession.pushPcm16 (listening engine (checkedRecognizer recognizer)) context bytes)
      (StreamingSession.pushPcm16 (listening engine recognizer) context bytes) fun _ =>
      Listening := by
  apply Alike.bind ((Alike.gets _).conseq (fun _ h => h) fun _ _ h => h.1)
  intro finished
  apply Alike.bind ((Alike.failIf _ _).conseq (fun _ h => h) fun _ _ h => h.1)
  intro valid
  apply Alike.bind (alike_check fun _ h => h)
  intro checked
  refine Alike.bind
    (alike_audio StreamingSession.decoder StreamingSession.setDecoder (fun _ _ h => h) _)
    fun decoded => ?_
  split
  · exact Alike.pure fun _ h => h
  refine Alike.bind
    (alike_audio StreamingSession.resampler StreamingSession.setResampler (fun _ _ h => h) _)
    fun converted => ?_
  apply Alike.bind ((Alike.gets _).conseq (fun _ h => h) fun _ _ h => h.1)
  intro residual
  apply Alike.bind (Q := fun _ => Listening)
  · exact Alike.modify fun _ h => ⟨h.1, Nat.le_of_lt_succ (remainder_length_lt _ _)⟩
  intro drained
  apply Alike.bind
    (Alike.collect fun frame hframe => alike_processFrame recognizer (blocks_length_eq hframe))
  intro updates
  apply Alike.bind (alike_check fun _ h => h)
  intro checked
  exact Alike.pure fun _ h => h

theorem alike_drainResidual :
    Alike Listening
      (StreamingSession.drainResidual (recognizerBackend (checkedRecognizer recognizer)))
      (StreamingSession.drainResidual (recognizerBackend recognizer)) fun _ => Listening := by
  apply Alike.bind (Alike.gets _)
  intro residual
  split
  case isTrue => exact Alike.pure fun _ h => h.1
  case isFalse hne =>
      intro s hs
      have hlen : residual.length ≤ 2 ^ 31 - 1 := by
        obtain ⟨⟨-, hres⟩, rfl⟩ := hs
        exact hres.trans (by decide)
      refine Alike.bind (alike_accept recognizer hne hlen) (fun given => ?_) s hs.1
      refine Alike.bind
        (alike_audio StreamingSession.vad StreamingSession.setVad (fun _ _ h => h) _)
        fun transition => ?_
      exact Alike.modify fun _ h => ⟨h.1, Nat.zero_le _⟩

theorem alike_lastText :
    Alike Listening (StreamingSession.lastText (recognizerBackend (checkedRecognizer recognizer)))
      (StreamingSession.lastText (recognizerBackend recognizer)) fun _ _ => True := by
  apply Alike.bind ((Alike.gets _).conseq (fun _ h => h) fun _ _ h => h.1)
  intro currentHasAudio
  split
  · apply Alike.bind (Alike.gets _)
    intro stream
    apply alike_call
    · rintro s ⟨⟨hopen, -⟩, rfl⟩
      rw [streamRefusal, hopen]
      rfl
    · exact fun _ _ _ => trivial
  · exact Alike.same fun _ _ _ _ _ => trivial

theorem alike_finish (engine : SttEngine) :
    Alike Listening
      (StreamingSession.finish (listening engine (checkedRecognizer recognizer)) context)
      (StreamingSession.finish (listening engine recognizer) context) fun _ _ => True := by
  apply Alike.ending
  apply Alike.bind ((Alike.gets _).conseq (fun _ h => h) fun _ _ h => h.1)
  intro finished
  apply Alike.bind ((Alike.failIf _ _).conseq (fun _ h => h) fun _ _ h => h.1)
  intro open'
  apply Alike.bind (alike_check fun _ h => h)
  intro checked
  apply Alike.bind ((Alike.gets _).conseq (fun _ h => h) fun _ _ h => h.1)
  intro decoder
  apply Alike.bind ((Alike.fromExcept _).conseq (fun _ h => h) fun _ _ h => h.1)
  intro audio
  apply Alike.bind (alike_drainResidual recognizer)
  intro drained
  refine Alike.bind (Q := fun _ => Listening) (Alike.modify fun _ h => h) fun closed => ?_
  apply Alike.bind (alike_lastText recognizer)
  intro text
  exact Alike.same fun _ _ _ _ _ => trivial

theorem alike_dictation (engine : SttEngine) (pushes : List (List UInt8)) :
    Alike Listening (dictation (listening engine (checkedRecognizer recognizer)) context pushes)
      (dictation (listening engine recognizer) context pushes) fun _ _ => True := by
  apply Alike.bind (Alike.collect fun bytes _ => alike_pushPcm16 recognizer engine bytes)
  intro updates
  apply Alike.bind (alike_finish recognizer engine)
  intro transcript
  exact Alike.pure fun _ _ => trivial

theorem alike_startStream (engine : SttEngine) (rate : Nat) :
    Alike (fun _ => True)
      ((listening engine (checkedRecognizer recognizer)).startStream rate context)
      ((listening engine recognizer).startStream rate context) fun s _ => Listening s := by
  apply Alike.bind (Q := fun _ _ => True) (Alike.same fun _ _ _ _ _ => trivial)
  intro active
  apply Alike.bind (Q := fun _ _ => True) (Alike.same fun _ _ _ _ _ => trivial)
  intro permit
  apply Alike.endingOnError
  apply Alike.bind (alike_openStream recognizer)
  intro stream
  apply Alike.bind ((Alike.fromExcept _).conseq (fun _ h => h) fun _ _ h => h.1)
  intro decoder
  apply Alike.bind ((Alike.fromExcept _).conseq (fun _ h => h) fun _ _ h => h.1)
  intro resampler
  apply Alike.bind ((Alike.fromExcept _).conseq (fun _ h => h) fun _ _ h => h.1)
  intro vad
  apply Alike.bind (Q := fun world _ => finishedIn world.history stream = false)
  · apply Alike.same
    intro w a t hw hrun
    cases hrun
    exact hw
  · intro world
    exact Alike.pure fun _ h => ⟨h, Nat.zero_le _⟩

/-- What the duration bound leaves after resampling. -/
theorem resampled_length_le {limits : AudioLimits} {audio out : MonoPcm}
    (hvalid : limits.validatePcm audio = .ok ())
    (hout : audio.resample Stt.engineSampleRate = .ok out) :
    out.samples.length ≤ 16 * limits.maxDurationMs.toNat + 1 := by
  have hadmitted : ¬ limits.Exceeds audio.sampleRate audio.samples.length := by
    intro hexceeds
    obtain ⟨e, herror, -⟩ := (validatePcm_gate audio limits).refused fun h => h.1 hexceeds
    rw [hvalid] at herror
    cases herror
  have hduration : 1000 * audio.samples.length ≤ audio.sampleRate * limits.maxDurationMs.toNat := by
    rw [AudioLimits.Exceeds] at hadmitted
    omega
  have hrate := (supported_bounds audio.rate_supported).1
  by_cases hsame : audio.sampleRate = Stt.engineSampleRate
  · have heq : out = audio := by
      rw [MonoPcm.resample, validateRate_ok (by decide)] at hout
      simp only [bind, Except.bind, if_pos hsame.symm] at hout
      cases hout
      rfl
    rw [hsame, Stt.engineSampleRate] at hduration
    rw [heq]
    omega
  · obtain ⟨out', hout', -, hsamples⟩ := audio.resample_ok (t := Stt.engineSampleRate) (by decide)
      (Stt.fits_of_resample hsame hout)
    rw [hout] at hout'
    cases hout'
    have hne : audio.samples.length ≠ 0 :=
      fun h => audio.samples_ne_nil (List.length_eq_zero_iff.mp h)
    have hgrid : (audio.samples.length - 1) * Stt.engineSampleRate ≤
        16 * limits.maxDurationMs.toNat * audio.sampleRate := by
      rw [Stt.engineSampleRate, Nat.mul_assoc 16, Nat.mul_comm limits.maxDurationMs.toNat]
      omega
    rw [hsamples, resampled, List.length_map, List.length_range, gridLength, if_neg hne]
    exact Nat.succ_le_succ (Nat.div_le_of_le_mul (hgrid.trans_eq (Nat.mul_comm _ _)))

theorem alike_transcribe (engine : SttEngine) (audio : MonoPcm)
    (hbound : 16 * engine.limits.audio.maxDurationMs.toNat + 1 ≤ 2 ^ 31 - 1) :
    Alike (fun _ => True)
      ((listening engine (checkedRecognizer recognizer)).transcribe audio context)
      ((listening engine recognizer).transcribe audio context) fun _ _ => True := by
  apply Alike.bind (Q := fun _ _ => True) (Alike.same fun _ _ _ _ _ => trivial)
  intro active
  apply Alike.bind (Q := fun _ _ => True) (Alike.same fun _ _ _ _ _ => trivial)
  intro permit
  apply Alike.ending
  apply Alike.bind (Alike.fromExcept _)
  intro valid
  apply Alike.bind (Alike.fromExcept _)
  intro converted
  apply Alike.of_fact
  intro hconverted
  apply Alike.of_fact
  intro hvalid
  have hlen : converted.samples.length ≤ 2 ^ 31 - 1 :=
    (resampled_length_le (Stt.audioError_eq_ok hvalid)
      (Stt.audioError_eq_ok hconverted)).trans hbound
  apply Alike.bind (alike_openStream recognizer |>.conseq (fun _ _ => trivial) fun _ _ h => h)
  intro stream
  apply Alike.bind (Q := fun _ w => finishedIn w.history stream = false)
  · apply alike_invoke
    · intro w hopen
      rw [streamRefusal, hopen, acceptRefuses_finite converted.samples_ne_nil hlen]
      rfl
    · intro w text hopen
      show finishedIn (w.history ++ _) stream = false
      rw [finishedIn_append, hopen]
      simp [finishedIn]
  intro given
  apply Alike.bind (Q := fun _ w => finishedIn w.history stream = false)
  · apply Alike.same
    intro w a t hopen hrun
    rw [Stt.run_ensureActive_eq_ok hrun]
    exact hopen
  intro checked
  apply Alike.bind (Q := fun _ _ => True)
  · apply alike_invoke
    · intro w hopen
      rw [streamRefusal, hopen]
      rfl
    · exact fun _ _ _ => trivial
  intro text
  exact Alike.same fun _ _ _ _ _ => trivial

end

theorem accepted_of_rules {limits : Tts.TtsLimits} {text : String} {speed : F32}
    (h : ¬ Tts.BreaksRules limits text speed) (htext : limits.maxTextBytes ≤ 16384)
    (hsamples : limits.maxOutputSamples ≠ 0) :
    generateRefuses text speed limits.maxOutputSamples = false := by
  obtain ⟨hblank, hlong, hnul, hfinite, hrange⟩ : _ ∧ _ ∧ _ ∧ _ ∧ _ := by
    simpa only [Tts.BreaksRules, not_or] using h
  have hbytes : ¬ 16384 < text.utf8ByteSize := by omega
  rw [Bool.not_eq_false] at hfinite hrange
  rw [generateRefuses, hfinite, hrange]
  simp [hblank, hbytes, hnul, hsamples]

theorem run_generate_congr {backend backend' : Tts.Backend} {call : GenerateCall} {w : Tts.World}
    (h : backend w.history call = backend' w.history call) :
    (Tts.generate backend call).run w = (Tts.generate backend' call).run w := by
  rw [Tts.run_generate, Tts.run_generate, h]

theorem alike_synthesize (engine : TtsEngine) (synthesizer : OfflineTts)
    (htext : engine.limits.maxTextBytes ≤ 16384) (text : String) (speed : F32)
    (context : Stt.RequestContext) :
    Alike (fun _ => True)
      ((speaking engine (checkedSynthesizer synthesizer)).synthesize text speed context)
      ((speaking engine synthesizer).synthesize text speed context) fun _ _ => True := by
  apply Alike.bind (Alike.failIf _ _)
  intro rules
  apply Alike.of_fact
  intro hrules
  apply Alike.bind (Q := fun _ _ => True) (Alike.same fun _ _ _ _ _ => trivial)
  intro active
  apply Alike.bind (Q := fun _ _ => True) (Alike.same fun _ _ _ _ _ => trivial)
  intro permit
  apply Alike.ending
  apply Alike.bind (Q := fun _ _ => True)
  · intro w _
    have hok : generateRefuses text speed engine.limits.maxOutputSamples = false :=
      accepted_of_rules hrules htext engine.output_ne_zero
    refine ⟨run_generate_congr ?_, fun _ _ _ => trivial⟩
    show Except.mapError
      _ (if generateRefuses text speed engine.limits.maxOutputSamples = true then _ else _) = _
    rw [hok]
    rfl
  · intro generated
    exact Alike.same fun _ _ _ _ _ => trivial

/-- The rules of the engines leave the checks of the native wrapper nothing to
refuse: with the checks or without them every session runs alike up to its end or
its first failure, and so does every recording and every text. -/
theorem engines_pass_the_native_checks (stt : SttEngine) (recognizer : OnlineRecognizer)
    (tts : TtsEngine) (synthesizer : OfflineTts) (context : Stt.RequestContext) :
    (∀ rate w, ((listening stt (checkedRecognizer recognizer)).startStream rate context).run w =
        ((listening stt recognizer).startStream rate context).run w ∧
      ∀ s w',
        ((listening stt (checkedRecognizer recognizer)).startStream rate context).run w = .ok s w' →
        ∀ pushes,
        (collect (StreamingSession.pushPcm16 (listening stt (checkedRecognizer recognizer)) context)
          pushes).run s =
          (collect (StreamingSession.pushPcm16 (listening stt recognizer) context) pushes).run s ∧
        (dictation (listening stt (checkedRecognizer recognizer)) context pushes).run s =
          (dictation (listening stt recognizer) context pushes).run s) ∧
    (16 * stt.limits.audio.maxDurationMs.toNat + 1 ≤ 2 ^ 31 - 1 → ∀ audio w,
      ((listening stt (checkedRecognizer recognizer)).transcribe audio context).run w =
        ((listening stt recognizer).transcribe audio context).run w) ∧
    (tts.limits.maxTextBytes ≤ 16384 → ∀ text speed w,
      ((speaking tts (checkedSynthesizer synthesizer)).synthesize text speed context).run w =
        ((speaking tts synthesizer).synthesize text speed context).run w) := by
  refine ⟨fun rate w => ?_, fun hbound audio w => ?_, fun htext text speed w => ?_⟩
  · have hstart :
        Alike (fun _ => True)
        ((listening stt (checkedRecognizer recognizer)).startStream rate context)
        ((listening stt recognizer).startStream rate context) fun s _ => Listening s :=
          alike_startStream recognizer stt rate
    obtain ⟨hopen, hlistening⟩ := hstart w trivial
    refine ⟨hopen, fun s w' hs pushes => ⟨?_, ?_⟩⟩
    · apply (Alike.collect fun bytes _ => alike_pushPcm16 recognizer stt bytes).run_eq
      exact hlistening s w' hs
    · exact (alike_dictation recognizer stt pushes).run_eq (hlistening s w' hs)
  · exact (alike_transcribe recognizer stt audio hbound).run_eq trivial
  · exact (alike_synthesize tts synthesizer htext text speed context).run_eq trivial

def oneWord : OnlineRecognizer := fun _ _ => .ok "word"

def oneSample : OfflineTts := fun _ _ => .ok ⟨[.finite 0], 22050⟩

def briefLimits : Tts.TtsLimits := ⟨1, 4096, 22050, 22050⟩

def briefSpeaker : TtsEngine :=
  ⟨Tts.nativeBackend oneSample, briefLimits, by decide, by decide, by decide, by decide⟩

def sampleRecording : MonoPcm := ⟨16000, [0], by decide, by decide, by simp⟩

theorem small_engines_pass :
    (∃ s w,
      ((listening Stt.defaultEngine (checkedRecognizer oneWord)).startStream 16000 .live).run
      ⟨[], 0, 0, 0⟩ = .ok s w ∧
      (dictation (listening Stt.defaultEngine (checkedRecognizer oneWord)) .live [[1, 2]]).run s =
      (dictation (listening Stt.defaultEngine oneWord) .live [[1, 2]]).run s) ∧
    ((listening Stt.defaultEngine (checkedRecognizer oneWord)).transcribe sampleRecording .live).run
      ⟨[], 0, 0, 0⟩ =
      ((listening Stt.defaultEngine oneWord).transcribe sampleRecording .live).run ⟨[], 0, 0, 0⟩ ∧
    ((speaking briefSpeaker (checkedSynthesizer oneSample)).synthesize "hello" (.finite 1)
      .live).run ⟨[], 0, 0, 0⟩ =
      ((speaking briefSpeaker oneSample).synthesize "hello" (.finite 1) .live).run
      ⟨[], 0, 0, 0⟩ := by
  obtain ⟨hsessions, hrecordings, htexts⟩ :=
    engines_pass_the_native_checks Stt.defaultEngine oneWord briefSpeaker oneSample .live
  obtain ⟨hopen, hsession⟩ := hsessions 16000 ⟨[], 0, 0, 0⟩
  obtain ⟨w, hw⟩ := Stt.defaultEngine_opens
  have hstart :
      ((listening Stt.defaultEngine (checkedRecognizer oneWord)).startStream 16000 .live).run
      ⟨[], 0, 0, 0⟩ =
      .ok (Stt.opened Stt.defaultEngine 16000 0 w) w := hopen.trans hw
  refine ⟨⟨_, w, hstart, (hsession _ w hstart [[1, 2]]).2⟩, ?_, ?_⟩
  · exact hrecordings (by decide) sampleRecording _
  · exact htexts (by decide) "hello" (.finite 1) _

end ImpossibleVoice.Native
