import ImpossibleVoice.Stt.Session

namespace ImpossibleVoice.Stt

open Lib Audio

/-- What the calls and the audio of an operation keep, and how they fail. -/
structure Steps (backend : Backend) (I : World → Prop) (E : SttError → World → Prop) : Prop where
  call : ∀ call, Triple I (invoke backend call) (fun _ => I) E
  audio : ∀ w, I w → E .audio w

/-- `I` holds between the steps, a check that passes gives `J` besides, and `E`
holds of an error. -/
structure Rules (backend : Backend) (context : RequestContext) (I J : World → Prop)
    (E : SttError → World → Prop) : Prop extends Steps backend I E where
  check : Triple I (ensureActive context) (fun _ w => I w ∧ J w) E

abbrev InSession {α : Type} (P : World → Prop) (m : SessionM α) (Q : World → Prop)
    (E : SttError → World → Prop) : Prop :=
  Triple (fun s => P s.world) m (fun _ s => Q s.world) (fun e s => E e s.world)

variable {α τ : Type} {backend : Backend} {context : RequestContext} {I I₀ J P Q : World → Prop}
  {E E₀ : SttError → World → Prop}

theorem InSession.onWorld {m : EStateM SttError World α} (h : Triple P m (fun _ => Q) E) :
    InSession P (onWorld m) Q E := by
  apply Triple.zoom h
  · exact fun _ hs => hs
  · exact fun _ _ _ _ hw => hw
  · exact fun _ _ _ _ hw => hw

theorem InSession.layer (haudio : ∀ w, P w → E .audio w) (read : StreamingSession → τ)
    (write : τ → StreamingSession → StreamingSession) (hwrite : ∀ u s, (write u s).world = s.world)
    (m : EStateM AudioError τ α) :
    InSession P (zoom read write (fun _ => SttError.audio) m) P E := by
  intro s hs
  rw [run_zoom]
  cases m.run (read s) with
  | ok a u =>
      change P (write u s).world
      rw [hwrite]
      exact hs
  | error e u =>
      change E .audio (write u s).world
      rw [hwrite]
      exact haudio _ hs

theorem InSession.read (f : StreamingSession → α) : InSession P (gets f) P E :=
  Triple.gets fun _ hs => hs

theorem InSession.write {f : StreamingSession → StreamingSession}
    (hf : ∀ s, (f s).world = s.world) : InSession P (modify f) P E :=
  Triple.modify fun s hs => by
    rw [hf]
    exact hs

theorem Steps.opens (steps : Steps backend I E) : Triple I (openStream backend) (fun _ => I) E := by
  refine Triple.bind (Triple.gets (Q := fun _ => I) fun _ h => h) fun history => ?_
  exact Triple.bind (steps.call _) fun _ => Triple.pure fun _ h => h

theorem Steps.decides (steps : Steps backend I E) (result : Except AudioError α) :
    Triple I (fromExcept (audioError result)) (fun _ => I) E := by
  cases result with
  | ok a => exact Triple.pure fun _ h => h
  | error e => exact steps.audio

theorem Steps.startStream (engine : SttEngine) (sourceSampleRate : Nat)
    (hcheck : Triple I₀ (ensureActive context) (fun _ => I₀) E₀)
    (hacquire : Triple I₀ (acquire engine.limits.maxConcurrent) (fun _ => I) E₀)
    (steps : Steps engine.backend I E) (hfailed : ∀ e w, E e w → E₀ e w.release) :
    Triple I₀ (engine.startStream sourceSampleRate context) (fun s w => I w ∧ I s.world) E₀ := by
  refine Triple.bind hcheck fun _ => Triple.bind hacquire fun _ => Triple.endingOnError ?_
  refine Triple.conseq (Q := fun s w => I w ∧ I (StreamingSession.world s)) ?_ (fun _ h => h)
    (fun _ _ h => h) hfailed
  refine Triple.bind steps.opens fun stream => Triple.bind (steps.decides _) fun decoder => ?_
  refine Triple.bind (steps.decides _) fun resampler => Triple.bind (steps.decides _) fun vad => ?_
  refine Triple.bind (Q := fun world w => I w ∧ I world) (Triple.get fun _ h => ⟨h, h⟩)
    fun world => ?_
  exact Triple.pure fun _ h => h

namespace Rules

theorem passes (rules : Rules backend context I J E) :
    Triple I (ensureActive context) (fun _ => I) E :=
  rules.check.conseq (fun _ h => h) (fun _ _ h => h.1) fun _ _ h => h

/-- A recording, where `I₀` and `E₀` speak of the world before the permit is taken
and after it is given back. -/
theorem transcribe (engine : SttEngine) (audio : MonoPcm)
    (hcheck : Triple I₀ (ensureActive context) (fun _ => I₀) E₀)
    (hacquire : Triple I₀ (acquire engine.limits.maxConcurrent) (fun _ => I) E₀)
    (rules : Rules engine.backend context I J E) (hdone : ∀ w, I w → J w → Q w.release)
    (hfailed : ∀ e w, E e w → E₀ e w.release) :
    Triple I₀ (engine.transcribe audio context) (fun _ => Q) E₀ := by
  refine Triple.bind hcheck fun _ => Triple.bind hacquire fun _ => Triple.ending ?_
  refine Triple.conseq (Q := fun _ w => I w ∧ J w) ?_ (fun _ h => h)
    (fun _ w h => hdone w h.1 h.2) hfailed
  refine Triple.bind (rules.decides _) fun _ => Triple.bind (rules.decides _) fun converted => ?_
  refine Triple.bind rules.opens fun stream => Triple.bind (rules.call _) fun _ => ?_
  refine Triple.bind rules.passes fun _ => Triple.bind (rules.call _) fun text => ?_
  exact Triple.bind rules.check fun _ => Triple.pure fun _ h => h

open StreamingSession

theorem accept (rules : Rules backend context I J E) (samples : List ℚ) :
    InSession I (accept backend samples) I E := by
  refine Triple.bind (InSession.read _) fun stream => ?_
  refine Triple.bind (InSession.onWorld (rules.call _)) fun _ => ?_
  exact InSession.write fun _ => rfl

theorem processVad (rules : Rules backend context I J E) (samples : List ℚ) :
    InSession I (processVad samples) I E :=
  InSession.layer rules.audio vad setVad (fun _ _ => rfl) _

theorem endUtterance (rules : Rules backend context I J E) :
    InSession I (endUtterance backend context) I E := by
  refine Triple.bind (InSession.read _) fun stream => ?_
  refine Triple.bind (InSession.onWorld (rules.call _)) fun text => ?_
  refine Triple.bind (InSession.onWorld rules.passes) fun _ => ?_
  refine Triple.bind (InSession.write fun _ => rfl) fun _ => ?_
  refine Triple.bind (InSession.onWorld rules.opens) fun next => ?_
  exact Triple.bind (InSession.write fun _ => rfl) fun _ => Triple.pure fun _ hs => hs

theorem showInterim (rules : Rules backend context I J E) :
    InSession I (showInterim backend) I E := by
  refine Triple.bind (InSession.read _) fun stream => ?_
  refine Triple.bind (InSession.onWorld (rules.call _)) fun text => ?_
  refine Triple.bind (InSession.read _) fun lastInterim => ?_
  split
  · exact Triple.bind (InSession.write fun _ => rfl) fun _ => Triple.pure fun _ hs => hs
  · exact Triple.pure fun _ hs => hs

theorem processFrame (rules : Rules backend context I J E) (frame : List ℚ) :
    InSession I (processFrame backend context frame) I E := by
  refine Triple.bind (InSession.onWorld rules.passes) fun _ => ?_
  refine Triple.bind (rules.accept frame) fun _ => ?_
  refine Triple.bind (rules.processVad frame) fun event => ?_
  split
  · exact rules.endUtterance
  · exact rules.showInterim

theorem pushPcm16 {engine : SttEngine} (rules : Rules engine.backend context I J E)
    (hinput : ∀ w, I w → E .invalidInput w) (bytes : List UInt8) :
    InSession I (pushPcm16 engine context bytes) (fun w => I w ∧ J w) E := by
  refine Triple.bind (InSession.read _) fun finished => ?_
  refine Triple.bind (Triple.failIf fun s hs _ => hinput _ hs) fun _ => Triple.of_fact fun _ => ?_
  refine Triple.bind (InSession.onWorld rules.check) fun _ => ?_
  refine Triple.bind (InSession.layer (P := fun w => I w ∧ J w) (fun w hw => rules.audio w hw.1)
    decoder setDecoder (fun _ _ => rfl) _) fun decoded => ?_
  split
  · exact Triple.pure fun _ hs => hs
  · refine Triple.conseq (P := fun s => I s.world) ?_ (fun _ hs => hs.1) (fun _ _ hs => hs)
      fun _ _ hs => hs
    refine Triple.bind (InSession.layer rules.audio resampler setResampler (fun _ _ => rfl) _)
      fun converted => ?_
    refine Triple.bind (InSession.read _) fun residual => ?_
    refine Triple.bind (InSession.write fun _ => rfl) fun _ => ?_
    refine Triple.bind (Triple.collect rules.processFrame _) fun updates => ?_
    exact Triple.bind (InSession.onWorld rules.check) fun _ => Triple.pure fun _ hs => hs

theorem drainResidual (rules : Rules backend context I J E) :
    InSession I (drainResidual backend) I E := by
  refine Triple.bind (InSession.read _) fun residual => ?_
  split
  · exact Triple.pure fun _ hs => hs
  · refine Triple.bind (rules.accept _) fun _ => Triple.bind (rules.processVad _) fun _ => ?_
    exact InSession.write fun _ => rfl

theorem lastText (rules : Rules backend context I J E) : InSession I (lastText backend) I E := by
  refine Triple.bind (InSession.read _) fun currentHasAudio => ?_
  split
  · exact Triple.bind (InSession.read _) fun stream => InSession.onWorld (rules.call _)
  · refine Triple.bind (InSession.read _) fun lastFinal => ?_
    refine Triple.bind (InSession.write fun _ => rfl) fun _ => ?_
    cases lastFinal with
    | some text => exact Triple.pure fun _ hs => hs
    | none => exact fun s hs => rules.audio _ hs

theorem finishBody {engine : SttEngine} (rules : Rules engine.backend context I J E)
    (hinput : ∀ w, I w → E .invalidInput w) :
    InSession I (finishBody engine context) (fun w => I w ∧ J w) E := by
  refine Triple.bind (InSession.read _) fun finished => ?_
  refine Triple.bind (Triple.failIf fun s hs _ => hinput _ hs) fun _ => Triple.of_fact fun _ => ?_
  refine Triple.bind (InSession.onWorld rules.passes) fun _ => ?_
  refine Triple.bind (InSession.read _) fun decoder => ?_
  refine Triple.bind (Q := fun _ s => I s.world) ?_ fun _ => ?_
  · cases decoder.finish with
    | ok u => exact Triple.pure fun _ hs => hs
    | error e => exact fun s hs => rules.audio _ hs
  · refine Triple.bind rules.drainResidual fun _ => ?_
    refine Triple.bind (InSession.write fun _ => rfl) fun _ => ?_
    refine Triple.bind rules.lastText fun text => ?_
    exact Triple.bind (InSession.onWorld rules.check) fun _ => Triple.pure fun _ hs => hs

theorem finish {engine : SttEngine} (rules : Rules engine.backend context I J E)
    (hinput : ∀ w, I w → E .invalidInput w) (hdone : ∀ w, I w → J w → Q w.release)
    (hfailed : ∀ e w, E e w → E₀ e w.release) :
    InSession I (finish engine context) Q E₀ := by
  apply Triple.ending
  apply (rules.finishBody hinput).conseq
  · exact fun _ hs => hs
  · exact fun _ s hs => hdone s.world hs.1 hs.2
  · exact fun e s hs => hfailed e s.world hs

end Rules

end ImpossibleVoice.Stt
