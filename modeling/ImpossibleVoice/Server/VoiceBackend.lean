import ImpossibleVoice.Stt.Session
import ImpossibleVoice.Tts.Synthesis

namespace ImpossibleVoice.Server

open Stt (Transcript TranscriptKind SttError)
open Tts (Synthesis TtsError)
open Audio (F32)

inductive VoiceBackendError
  | invalidInput
  | busy
  | cancelled
  | deadlineExceeded
  | engine
deriving DecidableEq

def mapTtsError : TtsError → VoiceBackendError
  | .invalidInput | .output => .invalidInput
  | .busy => .busy
  | .cancelled => .cancelled
  | .deadlineExceeded => .deadlineExceeded
  | .engine => .engine

/-- A call with its answer. A synthesis runs on a worker, which can also end
without one. -/
inductive VoiceCall
  | startTranscription (sampleRate : UInt32) (reply : Except VoiceBackendError Unit)
  | pushPcm16 (bytes : List UInt8) (reply : Except VoiceBackendError (List Transcript))
  | finish (reply : Except VoiceBackendError Transcript)
  | synthesize (input : String) (speed : F32) (reply : Option (Except VoiceBackendError Synthesis))

structure VoiceBackend where
  startTranscription : List VoiceCall → UInt32 → Except VoiceBackendError Unit
  pushPcm16 : List VoiceCall → List UInt8 → Except VoiceBackendError (List Transcript)
  finish : List VoiceCall → Except VoiceBackendError Transcript
  synthesize : List VoiceCall → String → F32 → Option (Except VoiceBackendError Synthesis)

/-- A boxed transcriber; what it remembers is in the calls made so far. -/
inductive Transcriber
  | boxed
deriving DecidableEq

def VoiceBackend.FinishesWith (backend : VoiceBackend) (finals : TranscriptKind → Prop) : Prop :=
  ∀ calls update, backend.finish calls = .ok update → finals update.kind

/-- What the trait asks of `finish`: it returns a final transcript. -/
def VoiceBackend.FinishesFinal (backend : VoiceBackend) : Prop :=
  backend.FinishesWith fun kind => kind = .final

def VoiceCall.failure : VoiceCall → Option VoiceBackendError
  | startTranscription _ (.error e) | pushPcm16 _ (.error e) | finish (.error e) => some e
  | _ => none

def VoiceCall.pushed : VoiceCall → Nat
  | pushPcm16 bytes _ => bytes.length
  | _ => 0

def fakeBackend : VoiceBackend where
  startTranscription _ rate := if rate = 8000 then .error .busy else .ok ()
  pushPcm16 calls bytes :=
    .ok [⟨.interim, "partial-" ++ toString ((calls.map VoiceCall.pushed).sum + bytes.length)⟩]
  finish calls := .ok ⟨.final, "final-" ++ toString (calls.map VoiceCall.pushed).sum⟩
  synthesize _ text _ := some (.error (if text = "engine-failure" then .engine else .cancelled))

theorem fakeBackend_finishesFinal : fakeBackend.FinishesFinal := by
  intro calls update h
  cases h
  rfl

end ImpossibleVoice.Server
