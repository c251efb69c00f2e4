import ImpossibleVoice.Audio.Incremental
import ImpossibleVoice.Audio.Resample
import ImpossibleVoice.Lib.Blocks
import ImpossibleVoice.Stt.Backend

namespace ImpossibleVoice.Stt

open Lib Audio

def engineSampleRate : Nat := 16000

def vadFrame : Nat := 319

/-- Speech-recognition engine. The constructor of the source refuses what the
last three fields exclude. -/
structure SttEngine where
  backend : Backend
  limits : SttLimits
  vad : VadConfig
  concurrent_ne_zero : limits.maxConcurrent ≠ 0
  chunk_ne_zero : limits.maxChunkBytes ≠ 0
  vad_ok : (EnergyVad.new vad engineSampleRate).isOk

def SttEngine.withBackend (backend : Backend) (limits : SttLimits) (vad : VadConfig) :
    Except SttError SttEngine :=
  if hc : limits.maxConcurrent = 0 then .error .invalidInput
  else if hm : limits.maxChunkBytes = 0 then .error .invalidInput
  else if hv : (EnergyVad.new vad engineSampleRate).isOk then .ok ⟨backend, limits, vad, hc, hm, hv⟩
  else .error .invalidInput

/-- The fields of a session that change, and the world around it. -/
structure StreamingSession where
  stream : Nat
  decoder : IncrementalPcm16
  resampler : StreamingResampler
  vad : EnergyVad
  residual : List ℚ
  lastInterim : String
  lastFinal : Option String
  currentHasAudio : Bool
  finished : Bool
  world : World

namespace StreamingSession

def setWorld (world : World) (s : StreamingSession) : StreamingSession := { s with world := world }

def setDecoder (decoder : IncrementalPcm16) (s : StreamingSession) : StreamingSession :=
  { s with decoder := decoder }

def setResampler (resampler : StreamingResampler) (s : StreamingSession) : StreamingSession :=
  { s with resampler := resampler }

def setVad (vad : EnergyVad) (s : StreamingSession) : StreamingSession := { s with vad := vad }

def setResidual (residual : List ℚ) (s : StreamingSession) : StreamingSession :=
  { s with residual := residual }

def setLastInterim (text : String) (s : StreamingSession) : StreamingSession :=
  { s with lastInterim := text }

def setLastFinal (text : Option String) (s : StreamingSession) : StreamingSession :=
  { s with lastFinal := text }

def setHasAudio (s : StreamingSession) : StreamingSession := { s with currentHasAudio := true }

def setFinished (s : StreamingSession) : StreamingSession := { s with finished := true }

def setStream (stream : Nat) (s : StreamingSession) : StreamingSession :=
  { s with stream := stream, currentHasAudio := false, lastInterim := "" }

end StreamingSession

abbrev SessionM := EStateM SttError StreamingSession

def onWorld {α : Type} (m : EStateM SttError World α) : SessionM α :=
  zoom StreamingSession.world StreamingSession.setWorld id m

def audioError {α : Type} (result : Except AudioError α) : Except SttError α :=
  result.mapError (fun _ => .audio)

namespace SttEngine

def startStream (engine : SttEngine) (sourceSampleRate : Nat) (context : RequestContext) :
    EStateM SttError World StreamingSession := do
  ensureActive context
  acquire engine.limits.maxConcurrent
  endingOnError World.release do
    let stream ← openStream engine.backend
    let decoder ← fromExcept
        (audioError (IncrementalPcm16.new sourceSampleRate engine.limits.audio))
    let resampler ← fromExcept
        (audioError (StreamingResampler.new sourceSampleRate engineSampleRate))
    let vad ← fromExcept (audioError (EnergyVad.new engine.vad engineSampleRate))
    let world ← get
    pure {
      stream := stream
      decoder := decoder
      resampler := resampler
      vad := vad
      residual := []
      lastInterim := ""
      lastFinal := none
      currentHasAudio := false
      finished := false
      world := world }

def transcribe (engine : SttEngine) (audio : MonoPcm) (context : RequestContext) :
    EStateM SttError World String := do
  ensureActive context
  acquire engine.limits.maxConcurrent
  ending World.release do
    fromExcept (audioError (engine.limits.audio.validatePcm audio))
    let converted ← fromExcept (audioError (audio.resample engineSampleRate))
    let stream ← openStream engine.backend
    let _ ← invoke engine.backend (.accept stream converted.samples)
    ensureActive context
    let text ← invoke engine.backend (.finish stream)
    ensureActive context
    pure text

end SttEngine

namespace StreamingSession

def accept (backend : Backend) (samples : List ℚ) : SessionM Unit := do
  let stream ← gets stream
  let _ ← onWorld (invoke backend (.accept stream samples))
  modify setHasAudio

def processVad (samples : List ℚ) : SessionM VadEvent :=
  zoom vad setVad (fun _ => .audio) (EnergyVad.process (samples.map .finite))

/-- `Ended`: the utterance is closed and its stream replaced. -/
def endUtterance (backend : Backend) (context : RequestContext) : SessionM (List Transcript) := do
  let stream ← gets stream
  let text ← onWorld (invoke backend (.finish stream))
  onWorld (ensureActive context)
  modify (setLastFinal (some text))
  let stream ← onWorld (openStream backend)
  modify (setStream stream)
  pure [⟨.final, text⟩]

def showInterim (backend : Backend) : SessionM (List Transcript) := do
  let stream ← gets stream
  let text ← onWorld (invoke backend (.interim stream))
  let lastInterim ← gets lastInterim
  if text ≠ "" ∧ text ≠ lastInterim then do
    modify (setLastInterim text)
    pure [⟨.interim, text⟩]
  else pure []

def processFrame (backend : Backend) (context : RequestContext) (frame : List ℚ) :
    SessionM (List Transcript) := do
  onWorld (ensureActive context)
  accept backend frame
  let transition ← processVad frame
  if transition = .ended then endUtterance backend context else showInterim backend

def pushPcm16 (engine : SttEngine) (context : RequestContext) (bytes : List UInt8) :
    SessionM (List Transcript) := do
  let finished ← gets finished
  failIf (finished = true ∨ bytes = [] ∨ engine.limits.maxChunkBytes < bytes.length) .invalidInput
  onWorld (ensureActive context)
  let decoded ← zoom decoder setDecoder (fun _ => .audio) (IncrementalPcm16.push bytes)
  if decoded = [] then pure []
  else do
    let converted ← zoom resampler setResampler (fun _ => .audio)
        (StreamingResampler.push (decoded.map .finite))
    let residual ← gets residual
    modify (setResidual (remainder vadFrame (residual ++ converted)))
    let updates ← collect (processFrame engine.backend context)
        (blocks vadFrame (residual ++ converted))
    onWorld (ensureActive context)
    pure updates

def lastText (backend : Backend) : SessionM String := do
  let currentHasAudio ← gets currentHasAudio
  if currentHasAudio then do
    let stream ← gets stream
    onWorld (invoke backend (.finish stream))
  else do
    let lastFinal ← gets lastFinal
    modify (setLastFinal none)
    fromExcept (match lastFinal with
      | some text => .ok text
      | none => .error .audio)

def drainResidual (backend : Backend) : SessionM Unit := do
  let residual ← gets residual
  if residual = [] then pure ()
  else do
    accept backend residual
    let _ ← processVad residual
    modify (setResidual [])

def finishBody (engine : SttEngine) (context : RequestContext) : SessionM Transcript := do
  let finished ← gets finished
  failIf (finished = true) .invalidInput
  onWorld (ensureActive context)
  let decoder ← gets decoder
  let _ ← fromExcept (audioError decoder.finish)
  drainResidual engine.backend
  modify setFinished
  let text ← lastText engine.backend
  onWorld (ensureActive context)
  pure ⟨.final, text⟩

def finish (engine : SttEngine) (context : RequestContext) : SessionM Transcript :=
  ending (fun s => s.setWorld s.world.release) (finishBody engine context)

def observed (s : StreamingSession) : StreamingSession := s.setWorld s.world.observe

end StreamingSession

theorem run_onWorld_ok {α : Type} {m : EStateM SttError World α} {s : StreamingSession} {a : α}
    {w : World} (h : m.run s.world = .ok a w) : (onWorld m).run s = .ok a (s.setWorld w) :=
  run_zoom_of_ok h

theorem run_onWorld_eq_ok {α : Type} {m : EStateM SttError World α} {s s' : StreamingSession}
    {a : α} (h : (onWorld m).run s = .ok a s') : ∃ w, m.run s.world = .ok a w ∧ s' = s.setWorld w :=
  run_zoom_eq_ok h

theorem run_check_live (s : StreamingSession) :
    (onWorld (ensureActive .live)).run s = .ok () s.observed :=
  run_onWorld_ok (run_ensureActive_live s.world)

theorem run_check_eq_ok {context : RequestContext} {s s' : StreamingSession} {u : Unit}
    (h : (onWorld (ensureActive context)).run s = .ok u s') : s' = s.observed := by
  obtain ⟨w, hw, rfl⟩ := run_onWorld_eq_ok h
  rw [run_ensureActive_eq_ok hw]
  rfl

end ImpossibleVoice.Stt
