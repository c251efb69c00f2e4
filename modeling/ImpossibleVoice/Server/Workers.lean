import ImpossibleVoice.Lib.Effect
import ImpossibleVoice.Lib.Failing
import ImpossibleVoice.Server.Multipart
import ImpossibleVoice.Server.SpeechDelivery

namespace ImpossibleVoice.Server

open Lib Audio Tts

inductive BatchCall
  | transcribe (audio : MonoPcm)
  | synthesize (text : String) (speed : F32)

/-- Any functions of all that was called before; a worker can also be lost. -/
structure BatchBackend where
  transcribe : List BatchCall → MonoPcm → Option (Except VoiceBackendError String)
  synthesize : List BatchCall → String → F32 → Option (Except VoiceBackendError Synthesis)

abbrev Handler (ε α : Type) := EStateM ε (List BatchCall) α

variable {ε α : Type}

def joined (lost : ε) (convert : VoiceBackendError → ε) :
    Option (Except VoiceBackendError α) → Except ε α
  | none => .error lost
  | some reply => reply.mapError convert

/-- `spawn_blocking`, awaited. -/
def spawnBlocking (call : BatchCall)
    (reply : List BatchCall → Option (Except VoiceBackendError α)) (lost : ε)
    (convert : VoiceBackendError → ε) : Handler ε α := do
  let history ← gets id
  modify fun calls => calls ++ [call]
  fromExcept (joined lost convert (reply history))

/-- The headers of a native transcription, so far as they are text. -/
structure AudioHeaders where
  contentType : Option String
  audioSampleRate : Option String

def headerRate : Option String → Except ApiError (Option Nat)
  | none => .ok none
  | some text => (orFail (parseU32 text.toList) (.invalid "sample rate is malformed")).map some

def decodeHttpAudio (headers : AudioHeaders) (bytes : List UInt8) : Except ApiError MonoPcm := do
  let contentType ← orFail headers.contentType (.invalid "content-type is required")
  let sampleRate ← headerRate headers.audioSampleRate
  decodeAudio contentType sampleRate bytes

variable (backend : BatchBackend)

/-- The function `transcribe` of the HTTP routes. -/
def transcribeOverHttp (audio : MonoPcm) : Handler ApiError String :=
  spawnBlocking (.transcribe audio) (fun calls => backend.transcribe calls audio)
    (.ofBackend .engine) .ofBackend

def nativeTranscription (headers : AudioHeaders) (body : List UInt8) : Handler ApiError String := do
  let audio ← fromExcept (decodeHttpAudio headers body)
  transcribeOverHttp backend audio

def openaiTranscription (fields : List Field) : Handler ApiError String := do
  let audio ← fromExcept (decodeFields fields)
  transcribeOverHttp backend audio

structure SpeechRequest where
  input : String
  speed : F32
  responseFormat : String
  model : Option String
  voice : Option String

def ResponseFormat.ofString (text : String) : Option ResponseFormat :=
  if text = "wav" then some .wav else if text = "pcm" then some .pcm else none

def ResponseFormat.contentType : ResponseFormat → String
  | wav => "audio/wav"
  | pcm => "audio/pcm"

structure SpeechResponse where
  contentType : String
  audioSampleRate : String
  audioChannels : String
  audioFormat : String
  body : List UInt8

def speech (request : SpeechRequest) : Handler ApiError SpeechResponse := do
  failIf (request.model.any (fun model => model != "impossible-voice-tts") = true ∨
    request.voice.any (fun voice => voice != "kristin") = true)
      (.invalid "model or voice is unsupported")
  let format ← fromExcept (orFail (ResponseFormat.ofString request.responseFormat)
    (.invalid "response_format must be wav or pcm"))
  let synthesis ← spawnBlocking (.synthesize request.input request.speed)
    (fun calls => backend.synthesize calls request.input request.speed)
      (.ofBackend .engine) .ofBackend
  let body ← fromExcept ((speechBody synthesis format).mapError .ofBackend)
  pure ⟨format.contentType, toString synthesis.audio.sampleRate, "1", "pcm_s16le", body⟩

namespace GrpcVoice

def maxGrpcMessageBytes : Nat := 16 * 1024 * 1024

def encodingOf : Int → Option AudioEncoding
  | 0 => some .unspecified
  | 1 => some .wavPcm16
  | 2 => some .rawPcm16
  | _ => none

structure TranscribeRequest where
  audio : List UInt8
  encoding : Int
  sampleRate : UInt32

def invalidAudio (message : String) (result : Except AudioError MonoPcm) : Except Status MonoPcm :=
  result.mapError fun _ => ⟨.invalidArgument, message⟩

def decodeAudio (request : TranscribeRequest) : Except Status MonoPcm :=
  if maxGrpcMessageBytes < request.audio.length then
    .error ⟨.resourceExhausted, "audio exceeds the message limit"⟩
  else if encodingOf request.encoding = some .wavPcm16 ∧ request.sampleRate = 0 then
    invalidAudio "WAV audio is invalid" (MonoPcm.fromWav request.audio .default)
  else if encodingOf request.encoding = some .rawPcm16 ∧ 0 < request.sampleRate then
    invalidAudio "raw PCM16 audio is invalid"
      (MonoPcm.fromPcm16Le request.audio request.sampleRate.toNat .default)
  else .error ⟨.invalidArgument, "encoding and sample rate are inconsistent"⟩

def transcribe (request : TranscribeRequest) : Handler Status String := do
  let audio ← fromExcept (decodeAudio request)
  spawnBlocking (.transcribe audio) (fun calls => backend.transcribe calls audio)
    ⟨.internal, "speech recognition worker failed"⟩ mapBackendError

structure SynthesizeRequest where
  input : String
  speed : F32
  encoding : Int

structure SynthesizeResponse where
  audio : List UInt8
  encoding : AudioEncoding
  sampleRate : Nat
  channels : Nat

def parseOutputEncoding (value : Int) : Except Status AudioEncoding :=
  match encodingOf value with
  | some .wavPcm16 => .ok .wavPcm16
  | some .rawPcm16 => .ok .rawPcm16
  | _ => .error ⟨.invalidArgument, "output encoding is unsupported"⟩

def normalizeSpeed (speed : F32) : F32 := if speed = .finite 0 then .finite 1 else speed

def synthesisOf (input : String) (speed : F32) : Handler Status Synthesis :=
  spawnBlocking (.synthesize input (normalizeSpeed speed))
    (fun calls => backend.synthesize calls input (normalizeSpeed speed))
    ⟨.internal, "speech synthesis worker failed"⟩ mapBackendError

def synthesize (request : SynthesizeRequest) : Handler Status SynthesizeResponse := do
  let encoding ← fromExcept (parseOutputEncoding request.encoding)
  let synthesis ← synthesisOf backend request.input request.speed
  let audio ← fromExcept (encodeSynthesis synthesis encoding)
  pure ⟨audio, encoding, synthesis.audio.sampleRate, 1⟩

def streamSynthesize (request : SynthesizeRequest) :
    Handler Status (List (Except Status AudioChunk)) := do
  let encoding ← fromExcept (parseOutputEncoding request.encoding)
  failIf (encoding ≠ .rawPcm16) ⟨.invalidArgument, "streaming synthesis requires raw PCM16 output"⟩
  let synthesis ← synthesisOf backend request.input request.speed
  pure (Server.streamSynthesize synthesis)

end GrpcVoice

theorem run_spawnBlocking (call : BatchCall)
    (reply : List BatchCall → Option (Except VoiceBackendError α)) (lost : ε)
    (convert : VoiceBackendError → ε) (calls : List BatchCall) :
    (spawnBlocking call reply lost convert).run calls =
      match joined lost convert (reply calls) with
      | .ok a => .ok a (calls ++ [call])
      | .error e => .error e (calls ++ [call]) := by
  have hmodify : (modify fun calls => calls ++ [call] : Handler ε PUnit).run calls =
      .ok ⟨⟩ (calls ++ [call]) := rfl
  rw [spawnBlocking, run_bind_of_ok (run_gets id calls), run_bind_of_ok hmodify, id]
  cases joined lost convert (reply calls) <;> rfl

end ImpossibleVoice.Server
