import ImpossibleVoice.Tts.Engine

namespace ImpossibleVoice.Tts

open Lib Audio
open Stt (RequestContext)

/-- What the steps of a synthesis keep and how they fail: `I` holds between them, a
check that passes gives `J` besides, and `E` holds of an error. -/
structure Rules (backend : Backend) (context : RequestContext) (I J : World → Prop)
    (E : TtsError → World → Prop) : Prop where
  check : Triple I (ensureActive context) (fun _ w => I w ∧ J w) E
  call : ∀ call, Triple I (generate backend call) (fun _ => I) E
  output : ∀ w, I w → E .output w

variable {backend : Backend} {context : RequestContext} {I I₀ J Q : World → Prop}
  {E E₀ : TtsError → World → Prop}

theorem Rules.publish {engine : TtsEngine} (rules : Rules engine.backend context I J E)
    (generated : GeneratedAudio) :
    Triple I (engine.publish context generated) (fun _ w => I w ∧ J w) E := by
  refine Triple.bind rules.check fun _ => ?_
  refine Triple.bind (Triple.failIf fun w hw _ => rules.output w hw.1) fun _ => ?_
  refine Triple.of_fact fun _ => ?_
  cases MonoPcm.new generated.sampleRate generated.samples with
  | ok audio => exact Triple.pure fun _ hw => hw
  | error e => exact fun w hw => rules.output w hw.1

/-- A synthesis, where `I₀` and `E₀` speak of the world before the permit is taken
and after it is given back. -/
theorem Rules.synthesize (engine : TtsEngine) (text : String) (speed : F32)
    (hinput : ∀ w, I₀ w → E₀ .invalidInput w)
    (hcheck : Triple I₀ (ensureActive context) (fun _ => I₀) E₀)
    (hacquire : Triple I₀ (acquire engine.limits.maxConcurrent) (fun _ => I) E₀)
    (rules : Rules engine.backend context I J E) (hdone : ∀ w, I w → J w → Q w.release)
    (hfailed : ∀ e w, E e w → E₀ e w.release) :
    Triple I₀ (engine.synthesize text speed context) (fun _ => Q) E₀ := by
  refine Triple.bind (Triple.failIf fun w hw _ => hinput w hw) fun _ => Triple.of_fact fun _ => ?_
  refine Triple.bind hcheck fun _ => Triple.bind hacquire fun _ => Triple.ending ?_
  refine Triple.conseq (Q := fun _ w => I w ∧ J w) ?_ (fun _ h => h)
    (fun _ w h => hdone w h.1 h.2) hfailed
  exact Triple.bind (rules.call _) fun generated => rules.publish generated

end ImpossibleVoice.Tts
