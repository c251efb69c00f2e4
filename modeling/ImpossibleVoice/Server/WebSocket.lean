import ImpossibleVoice.Lib.Blocks
import ImpossibleVoice.Server.VoiceBackend

namespace ImpossibleVoice.Server

open Lib
open Stt (Transcript TranscriptKind)
open Tts (Synthesis)
open Audio (F32)

def maxWsMessageBytes : Nat := 64 * 1024

def ttsChunkBytes : Nat := 32 * 1024

inductive ErrorCode
  | invalidRequest
  | overloaded
  | cancelled
  | deadlineExceeded
  | engineError
  | audioFrameExpected
  | invalidJson
  | audioDeclarationRequired
  | audioFrameInvalid
  | sttSessionRequired
  | sampleRateRequired
  | sampleRateNotAllowed
  | invalidSequence
deriving DecidableEq

structure ApiError where
  status : Nat
  code : ErrorCode
  message : String
deriving DecidableEq

def ApiError.invalid (message : String) : ApiError := ⟨400, .invalidRequest, message⟩

def ApiError.ofBackend : VoiceBackendError → ApiError
  | .invalidInput => .invalid "voice input is invalid"
  | .busy => ⟨429, .overloaded, "voice capacity is busy"⟩
  | .cancelled => ⟨503, .cancelled, "the request was cancelled"⟩
  | .deadlineExceeded => ⟨504, .deadlineExceeded, "the request deadline was exceeded"⟩
  | .engine => ⟨500, .engineError, "the local voice engine failed"⟩

inductive SessionMode
  | stt
  | tts
deriving DecidableEq

inductive ClientEvent
  | sessionStart (mode : SessionMode) (sampleRate : Option UInt32)
  | audioAppend (bytes : Nat)
  | audioCommit
  | speechGenerate (input : String) (speed : F32)
  | cancel
  | ping
  | close
deriving DecidableEq

/-- A frame of the client. A text frame holds what `from_str` makes of it. -/
inductive Message
  | text (event : Option ClientEvent)
  | binary (bytes : List UInt8)
  | ping (payload : List UInt8)
  | pong (payload : List UInt8)
  | close
deriving DecidableEq

/-- What can wake the session: `recv` yields a frame, an error or nothing, the
synthesis worker ends, or the session's deadline elapses. -/
inductive Input
  | received (message : Message)
  | refused
  | disconnected
  | workerDone
  | deadline
deriving DecidableEq

inductive EventKind
  | sessionReady
  | transcriptInterim
  | transcriptFinal
  | sessionCompleted
  | speechMetadata
  | speechCompleted
  | pong
  | cancelled
  | error
deriving DecidableEq

def transcriptKind : TranscriptKind → EventKind
  | .interim => .transcriptInterim
  | .final => .transcriptFinal

structure ServerEvent where
  kind : EventKind
  sessionId : UInt64
  text : Option String
  code : Option ErrorCode
  sampleRate : Option Nat
  channels : Option Nat
  chunking : Option String
deriving DecidableEq

inductive Frame
  | text (event : ServerEvent)
  | binary (bytes : List UInt8)
  | pong (payload : List UInt8)
deriving DecidableEq

/-- How one `send` ends. The deadline can elapse while it waits, with the frame
already written or not. -/
inductive Sending
  | sent
  | failed
  | expired (written : Bool)
deriving DecidableEq

structure Endpoint where
  backend : VoiceBackend
  sessionId : UInt64
  /-- The outcome of each `send` in turn. -/
  wire : Nat → Sending

structure SessionState where
  mode : Option SessionMode
  pendingAudio : Option Nat
  transcriber : Option Transcriber
  completed : Bool
  failure : Option VoiceBackendError
deriving DecidableEq

def SessionState.new : SessionState := ⟨none, none, none, false, none⟩

/-- The session's variables, and what went out so far. A worker is there while
the inner loop of `speech_generate` runs. -/
structure Connection where
  session : SessionState
  worker : Option (Option (Except VoiceBackendError Synthesis))
  tokenCancelled : Bool
  calls : List VoiceCall
  frames : List Frame
  sends : Nat

namespace Connection

def start : Connection := ⟨.new, none, false, [], [], 0⟩

def setMode (c : Connection) (mode : SessionMode) : Connection :=
  { c with session := { c.session with mode := some mode } }

def setPending (c : Connection) (pending : Option Nat) : Connection :=
  { c with session := { c.session with pendingAudio := pending } }

def setTranscriber (c : Connection) (transcriber : Option Transcriber) : Connection :=
  { c with session := { c.session with transcriber } }

def complete (c : Connection) : Connection :=
  { c with session := { c.session with completed := true } }

def fail (c : Connection) (error : VoiceBackendError) : Connection :=
  { c with session := { c.session with failure := some error } }

def setWorker (c : Connection) (worker : Option (Option (Except VoiceBackendError Synthesis))) :
    Connection :=
  { c with worker }

def cancel (c : Connection) : Connection := { c with tokenCancelled := true }

def called (c : Connection) (call : VoiceCall) : Connection := { c with calls := c.calls ++ [call] }

def attempted (c : Connection) : Connection := { c with sends := c.sends + 1 }

def sent (c : Connection) (frame : Frame) : Connection :=
  { c with frames := c.frames ++ [frame], sends := c.sends + 1 }

def sentAll (c : Connection) (frames : List Frame) : Connection :=
  { c with frames := c.frames ++ frames, sends := c.sends + frames.length }

theorem sentAll_nil (c : Connection) : c.sentAll [] = c := by
  rw [sentAll, List.append_nil, List.length_nil, Nat.add_zero]

theorem sentAll_cons (c : Connection) (frame : Frame) (frames : List Frame) :
    c.sentAll (frame :: frames) = (c.sent frame).sentAll frames := by
  simp only [sentAll, sent, List.append_assoc, List.singleton_append, List.length_cons]
  congr 1
  omega

end Connection

/-- All that a session sends and calls; it has a close frame once it ended. -/
structure Transmission where
  calls : List VoiceCall
  frames : List Frame
  close : Option (Nat × String)

/-- How the loop ends: `Ok`, `Err`, or cut off by the deadline. -/
inductive Exit
  | closed
  | failed
  | expired
deriving DecidableEq

abbrev Ws := EStateM Exit Connection

namespace Endpoint

variable (endpoint : Endpoint)

def send (frame : Frame) : Ws Unit := do
  let sends ← gets Connection.sends
  match endpoint.wire sends with
  | .sent => modify fun c => c.sent frame
  | .failed => do
      modify Connection.attempted
      throw .failed
  | .expired written => do
      modify fun c => if written then c.sent frame else c.attempted
      throw .expired

def event (kind : EventKind) : ServerEvent :=
  ⟨kind, endpoint.sessionId, none, none, none, none, none⟩

def errorEvent (code : ErrorCode) : ServerEvent := { endpoint.event .error with code := some code }

def transcriptEvent (update : Transcript) : ServerEvent :=
  { endpoint.event (transcriptKind update.kind) with text := some update.text }

def metadataEvent (synthesis : Synthesis) : ServerEvent :=
  { endpoint.event .speechMetadata with
    sampleRate := some synthesis.audio.sampleRate
    channels := some 1
    chunking := some "post_synthesis_transport" }

def sendEvent (event : ServerEvent) : Ws Unit := endpoint.send (.text event)

def sendTranscript (update : Transcript) : Ws Unit :=
  endpoint.sendEvent (endpoint.transcriptEvent update)

/-- `send_error(..).await?; return Err(())`. -/
def reject {α : Type} (code : ErrorCode) : Ws α := do
  endpoint.sendEvent (endpoint.errorEvent code)
  throw .failed

def rejectIf (p : Prop) [Decidable p] (code : ErrorCode) : Ws Unit :=
  if p then endpoint.reject code else pure ()

def failBackend {α : Type} (error : VoiceBackendError) : Ws α := do
  modify fun c => c.fail error
  endpoint.reject (ApiError.ofBackend error).code

def sendAll : List Frame → Ws Unit
  | [] => pure ()
  | frame :: frames => do
      endpoint.send frame
      sendAll frames

def startTranscription (rate : UInt32) : Ws (Except VoiceBackendError Unit) := do
  let calls ← gets Connection.calls
  modify fun c =>
    c.called (.startTranscription rate (endpoint.backend.startTranscription calls rate))
  pure (endpoint.backend.startTranscription calls rate)

def pushPcm16 (bytes : List UInt8) : Ws (Except VoiceBackendError (List Transcript)) := do
  let calls ← gets Connection.calls
  modify fun c => c.called (.pushPcm16 bytes (endpoint.backend.pushPcm16 calls bytes))
  pure (endpoint.backend.pushPcm16 calls bytes)

def finish : Ws (Except VoiceBackendError Transcript) := do
  let calls ← gets Connection.calls
  modify fun c => c.called (.finish (endpoint.backend.finish calls))
  pure (endpoint.backend.finish calls)

def spawnSynthesis (input : String) (speed : F32) : Ws Unit := do
  let calls ← gets Connection.calls
  modify fun c => c.called (.synthesize input speed (endpoint.backend.synthesize calls input speed))
  modify fun c => c.setWorker (some (endpoint.backend.synthesize calls input speed))

def openTranscriber (rate : UInt32) : Ws Unit := do
  match ← endpoint.startTranscription rate with
  | .ok _ => modify fun c => c.setTranscriber (some .boxed)
  | .error error => endpoint.failBackend error

def openSession (mode : SessionMode) (sampleRate : Option UInt32) : Ws Unit :=
  match mode, sampleRate with
  | .stt, none => endpoint.reject .sampleRateRequired
  | .stt, some rate => endpoint.openTranscriber rate
  | .tts, rate => endpoint.rejectIf (rate.isSome = true) .sampleRateNotAllowed

def onSessionStart (mode : SessionMode) (sampleRate : Option UInt32) : Ws Bool := do
  modify fun c => c.setMode mode
  endpoint.openSession mode sampleRate
  endpoint.sendEvent (endpoint.event .sessionReady)
  pure false

def onAudioCommit : Ws Bool := do
  let session ← gets Connection.session
  match session.transcriber with
  | none => endpoint.reject .invalidSequence
  | some _ => do
      modify fun c => c.setTranscriber none
      match ← endpoint.finish with
      | .error error => endpoint.failBackend error
      | .ok update => do
          endpoint.sendTranscript update
          modify Connection.complete
          endpoint.sendEvent (endpoint.event .sessionCompleted)
          pure false

def onCancel : Ws Bool := do
  modify Connection.cancel
  endpoint.sendEvent (endpoint.event .cancelled)
  pure true

def onPing : Ws Bool := do
  endpoint.sendEvent (endpoint.event .pong)
  pure false

def handleClientEvent (event : ClientEvent) : Ws Bool := do
  let session ← gets Connection.session
  match event with
  | .sessionStart mode sampleRate =>
      if session.mode = none then endpoint.onSessionStart mode sampleRate
        else endpoint.reject .invalidSequence
  | .audioAppend bytes =>
      if session.mode = some .stt ∧ session.completed = false ∧ 0 < bytes ∧
        bytes ≤ maxWsMessageBytes then do
        modify fun c => c.setPending (some bytes)
        pure false
      else endpoint.reject .invalidSequence
  | .audioCommit =>
      if session.mode = some .stt ∧ session.completed = false then endpoint.onAudioCommit
      else endpoint.reject .invalidSequence
  | .speechGenerate input speed =>
      if session.mode = some .tts ∧ session.completed = false then do
        endpoint.spawnSynthesis input speed
        pure false
      else endpoint.reject .invalidSequence
  | .cancel => endpoint.onCancel
  | .ping => endpoint.onPing
  | .close => pure true

/-- The inner loop of `speech_generate`: cancel, drop the worker and report. -/
def interrupt {α : Type} (code : ErrorCode) : Ws α := do
  modify Connection.cancel
  endpoint.reject code

def onCommand (command : ClientEvent) : Ws Unit :=
  match command with
  | .cancel => do
      modify Connection.cancel
      endpoint.sendEvent (endpoint.event .cancelled)
      throw .closed
  | .close => do
      modify Connection.cancel
      throw .closed
  | .ping => endpoint.sendEvent (endpoint.event .pong)
  | _ => endpoint.interrupt .invalidSequence

/-- The rest of `speech_generate`, once the worker has ended. -/
def publish (synthesis : Synthesis) : Ws Unit := do
  let cancelled ← gets Connection.tokenCancelled
  failIf (cancelled = true) .closed
  endpoint.sendEvent (endpoint.metadataEvent synthesis)
  endpoint.sendAll ((chunks (ttsChunkBytes - 1) synthesis.pcm16).map .binary)
  modify Connection.complete
  endpoint.sendEvent (endpoint.event .speechCompleted)

def onWorkerDone (result : Option (Except VoiceBackendError Synthesis)) : Ws Unit := do
  modify fun c => c.setWorker none
  match result.getD (.error .engine) with
  | .ok synthesis => endpoint.publish synthesis
  | .error error => endpoint.failBackend error

/-- One turn of `select!` while the worker runs. -/
def whileSynthesizing (result : Option (Except VoiceBackendError Synthesis)) (input : Input) :
    Ws Unit :=
  match input with
  | .workerDone => endpoint.onWorkerDone result
  | .received (.text none) => endpoint.interrupt .invalidJson
  | .received (.text (some command)) => endpoint.onCommand command
  | .received (.ping payload) => endpoint.send (.pong payload)
  | .received (.pong _) => pure ()
  | .received (.binary _) => endpoint.interrupt .invalidSequence
  | .received .close | .refused | .disconnected => do
      modify Connection.cancel
      throw .closed
  | .deadline => throw .expired

def onText (event : Option ClientEvent) : Ws Unit := do
  let session ← gets Connection.session
  endpoint.rejectIf (session.pendingAudio.isSome = true) .audioFrameExpected
  match event with
  | none => endpoint.reject .invalidJson
  | some event => do
      let done ← endpoint.handleClientEvent event
      failIf (done = true) .closed

def onBinary (bytes : List UInt8) : Ws Unit := do
  let session ← gets Connection.session
  modify fun c => c.setPending none
  match session.pendingAudio with
  | none => endpoint.reject .audioDeclarationRequired
  | some expected => do
      endpoint.rejectIf (bytes.length ≠ expected ∨ maxWsMessageBytes < expected) .audioFrameInvalid
      endpoint.rejectIf (session.transcriber = none) .sttSessionRequired
      match ← endpoint.pushPcm16 bytes with
      | .error error => endpoint.failBackend error
      | .ok updates =>
          endpoint.sendAll (updates.map fun update => .text (endpoint.transcriptEvent update))

def whileReceiving (input : Input) : Ws Unit :=
  match input with
  | .received (.text event) => endpoint.onText event
  | .received (.binary bytes) => endpoint.onBinary bytes
  | .received (.ping payload) => endpoint.send (.pong payload)
  | .received (.pong _) => pure ()
  | .received .close | .disconnected => throw .closed
  | .refused => throw .failed
  | .workerDone => pure ()
  | .deadline => throw .expired

def step (input : Input) : Ws Unit := do
  let worker ← gets Connection.worker
  match worker with
  | none => endpoint.whileReceiving input
  | some result => endpoint.whileSynthesizing result input

def websocketLoop : List Input → Ws Unit
  | [] => pure ()
  | input :: inputs => do
      endpoint.step input
      websocketLoop inputs

/-- A `send` whose result is dropped, outside the reach of the deadline. -/
def trySend (frame : Frame) (c : Connection) : Connection :=
  if endpoint.wire c.sends = .failed then c.attempted else c.sent frame

def closeFrame (exit : Exit) (failure : Option VoiceBackendError) : Nat × String :=
  match exit, failure with
  | .expired, _ => (1008, "session deadline exceeded")
  | .failed, some .busy => (1013, "voice capacity is busy")
  | .failed, some .deadlineExceeded => (1008, "session deadline exceeded")
  | .failed, some .engine => (1011, "voice engine failed")
  | .failed, _ => (1002, "protocol error")
  | .closed, _ => (1000, "session closed")

def websocketSession (inputs : List Input) : Transmission :=
  match (endpoint.websocketLoop inputs).run .start with
  | .ok _ c => ⟨c.calls, c.frames, none⟩
  | .error exit c =>
      let reported := if exit = .expired then
          endpoint.trySend (.text (endpoint.errorEvent .deadlineExceeded)) c.cancel else c.cancel
      ⟨reported.calls, reported.frames,
        if endpoint.wire reported.sends = .failed then none
          else some (closeFrame exit c.session.failure)⟩

end Endpoint

end ImpossibleVoice.Server
