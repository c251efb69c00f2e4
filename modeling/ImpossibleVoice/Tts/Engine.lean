import ImpossibleVoice.Lib.Chars
import ImpossibleVoice.Stt.Backend
import ImpossibleVoice.Tts.Synthesis

namespace ImpossibleVoice.Tts

open Lib Audio
open Stt (RequestContext)

structure TtsLimits where
  maxConcurrent : Nat
  maxTextBytes : Nat
  maxOutputSamples : Nat
  maxChunkSamples : Nat

def TtsLimits.default : TtsLimits := ⟨1, 4096, 22050 * 5 * 60, 22050⟩

structure GeneratedAudio where
  samples : List F32
  sampleRate : Nat
deriving DecidableEq

structure GenerateCall where
  text : String
  speed : F32
  maxSamples : Nat
deriving DecidableEq

structure Exchange where
  call : GenerateCall
  reply : Except TtsError GeneratedAudio

abbrev Backend := List Exchange → GenerateCall → Except TtsError GeneratedAudio

structure NativeError where
  message : String

abbrev OfflineTts := List Exchange → GenerateCall → Except NativeError GeneratedAudio

def nativeBackend (synthesizer : OfflineTts) : Backend := fun history call =>
  (synthesizer history call).mapError fun _ => .engine

/-- What lies outside the engine: the backend's history, the time, the permits
taken from the limiter, and when the last call of the backend returned. -/
@[ext] structure World where
  history : List Exchange
  time : Nat
  active : Nat
  returned : Nat

def World.observe (w : World) : World := { w with time := w.time + 1 }

def World.exchanged (w : World) (call : GenerateCall) (reply : Except TtsError GeneratedAudio) :
    World :=
  { w with history := w.history ++ [⟨call, reply⟩], time := w.time + 1, returned := w.time + 1 }

def World.hold (w : World) : World := { w with active := w.active + 1 }

def World.release (w : World) : World := { w with active := w.active - 1 }

def generate (backend : Backend) (call : GenerateCall) : EStateM TtsError World GeneratedAudio := do
  let history ← gets World.history
  modify fun w => w.exchanged call (backend history call)
  fromExcept (backend history call)

def ensureActive (context : RequestContext) : EStateM TtsError World Unit := do
  let time ← gets World.time
  modify World.observe
  failIf (context.cancelled time = true) .cancelled
  failIf (context.expired time = true) .deadlineExceeded

/-- `Limiter::acquire`. -/
def acquire (maximum : Nat) : EStateM TtsError World Unit := do
  let active ← gets World.active
  failIf (maximum ≤ active) .busy
  modify World.hold

/-- Speech-synthesis engine. The constructor of the source refuses what the last
fields exclude. -/
structure TtsEngine where
  backend : Backend
  limits : TtsLimits
  concurrent_ne_zero : limits.maxConcurrent ≠ 0
  text_ne_zero : limits.maxTextBytes ≠ 0
  output_ne_zero : limits.maxOutputSamples ≠ 0
  chunk_ne_zero : limits.maxChunkSamples ≠ 0

def TtsEngine.withBackend (backend : Backend) (limits : TtsLimits) : Except TtsError TtsEngine :=
  if hc : limits.maxConcurrent = 0 then .error .invalidInput
  else if ht : limits.maxTextBytes = 0 then .error .invalidInput
  else if ho : limits.maxOutputSamples = 0 then .error .invalidInput
  else if hm : limits.maxChunkSamples = 0 then .error .invalidInput
  else .ok ⟨backend, limits, hc, ht, ho, hm⟩

def BreaksRules (limits : TtsLimits) (text : String) (speed : F32) : Prop :=
  trim text.toList = [] ∨ limits.maxTextBytes < text.utf8ByteSize ∨ '\x00' ∈ text.toList ∨
    speed.isFinite = false ∨ speed.within (1 / 2) 2 = false

instance (limits : TtsLimits) (text : String) (speed : F32) :
    Decidable (BreaksRules limits text speed) :=
  inferInstanceAs (Decidable (_ ∨ _ ∨ _ ∨ _ ∨ _))

def outputError {α : Type} (result : Except AudioError α) : Except TtsError α :=
  result.mapError fun _ => .output

namespace TtsEngine

def call (engine : TtsEngine) (text : String) (speed : F32) : GenerateCall :=
  ⟨text, speed, engine.limits.maxOutputSamples⟩

def publish (engine : TtsEngine) (context : RequestContext) (generated : GeneratedAudio) :
    EStateM TtsError World Synthesis := do
  ensureActive context
  failIf (engine.limits.maxOutputSamples < generated.samples.length) .output
  let audio ← fromExcept (outputError (MonoPcm.new generated.sampleRate generated.samples))
  pure ⟨audio, engine.limits.maxChunkSamples, engine.chunk_ne_zero⟩

def synthesize (engine : TtsEngine) (text : String) (speed : F32) (context : RequestContext) :
    EStateM TtsError World Synthesis := do
  failIf (BreaksRules engine.limits text speed) .invalidInput
  ensureActive context
  acquire engine.limits.maxConcurrent
  ending World.release do
    let generated ← generate engine.backend (engine.call text speed)
    engine.publish context generated

end TtsEngine

theorem run_generate (backend : Backend) (call : GenerateCall) (w : World) :
    (generate backend call).run w = match backend w.history call with
      | .ok generated => .ok generated (w.exchanged call (.ok generated))
      | .error e => .error e (w.exchanged call (.error e)) := by
  rw [generate, run_bind_of_ok (run_gets _ _), run_bind_of_ok (EStateM.run_modify _ _)]
  cases backend w.history call <;> rfl

theorem run_ensureActive_ok {context : RequestContext} {w : World}
    (hc : context.cancelled w.time = false) (he : context.expired w.time = false) :
    (ensureActive context).run w = .ok () w.observe := by
  rw [ensureActive, run_bind_of_ok (run_gets _ _), run_bind_of_ok (EStateM.run_modify _ _),
    run_bind_of_ok (run_failIf_neg (by rw [hc]; exact Bool.false_ne_true) _ _),
    run_failIf_neg (by rw [he]; exact Bool.false_ne_true)]

theorem run_acquire (maximum : Nat) (w : World) :
    (acquire maximum).run w = if maximum ≤ w.active then .error .busy w else .ok () w.hold := by
  rw [acquire, run_bind_of_ok (run_gets _ _)]
  split
  case isTrue hfull => rw [run_bind_of_error (run_failIf_pos hfull _ _)]
  case isFalse hfree =>
    rw [run_bind_of_ok (run_failIf_neg hfree _ _)]
    rfl

end ImpossibleVoice.Tts
