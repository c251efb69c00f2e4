import ImpossibleVoice.Lib.Pipe
import ImpossibleVoice.Lib.Runs
import ImpossibleVoice.Server.VoiceBackend

namespace ImpossibleVoice.Server

open Lib
open Stt (Transcript)

def maxStreamAudioBytes : Nat := 64 * 1024

def outputQueue : Nat := 8

inductive StatusCode
  | invalidArgument
  | resourceExhausted
  | cancelled
  | deadlineExceeded
  | internal
deriving DecidableEq

structure Status where
  code : StatusCode
  message : String
deriving DecidableEq

def mapBackendError : VoiceBackendError → Status
  | .invalidInput => ⟨.invalidArgument, "voice input is invalid"⟩
  | .busy => ⟨.resourceExhausted, "voice capacity is busy"⟩
  | .cancelled => ⟨.cancelled, "the request was cancelled"⟩
  | .deadlineExceeded => ⟨.deadlineExceeded, "the request deadline was exceeded"⟩
  | .engine => ⟨.internal, "the local voice engine failed"⟩

structure TranscriptEvent where
  text : String
  final : Bool
deriving DecidableEq

def TranscriptEvent.ofUpdate (update : Transcript) : TranscriptEvent :=
  ⟨update.text, decide (update.kind = .final)⟩

abbrev Item := Except Status TranscriptEvent

inductive StreamEvent
  | config (sampleRate : UInt32)
  | audio (bytes : List UInt8)
  | commit (value : Bool)
  | cancel (value : Bool)
deriving DecidableEq

/-- What the request stream yields: a message, whose event may be missing, its
end, or an error. -/
inductive Incoming
  | message (event : Option StreamEvent)
  | ended
  | failed
deriving DecidableEq

inductive RequestStop
  | cancelled
  | deadlineExceeded
deriving DecidableEq

def RequestStop.status : RequestStop → Status
  | cancelled => ⟨.cancelled, "the request was cancelled"⟩
  | deadlineExceeded => ⟨.deadlineExceeded, "the request deadline was exceeded"⟩

inductive Selected
  | stopped (stop : RequestStop)
  | input (incoming : Incoming)
deriving DecidableEq

structure Task where
  session : Option Transcriber
  committed : Bool
  calls : List VoiceCall

def Task.start : Task := ⟨none, false, []⟩

def Task.called (task : Task) (call : VoiceCall) : Task :=
  { task with calls := task.calls ++ [call] }

/-- One turn of the task's loop: what it sends, one after another, and whether
it goes on after that. -/
structure Turn where
  task : Task
  items : List Item
  continues : Bool

/-- The end of the loop's body, where an error of the backend is reported. -/
def settle (task : Task) (items : List Item) (result : Except VoiceBackendError Unit) : Turn :=
  match result with
  | .error error => ⟨task, items ++ [.error (mapBackendError error)], false⟩
  | .ok _ => ⟨task, items, !task.committed⟩

def onConfig (backend : VoiceBackend) (task : Task) (rate : UInt32) : Turn :=
  match backend.startTranscription task.calls rate with
  | .ok opened =>
      settle
        { task.called (.startTranscription rate (.ok opened)) with session := some .boxed } []
        (.ok ())
  | .error error => settle (task.called (.startTranscription rate (.error error))) [] (.error error)

def onAudio (backend : VoiceBackend) (task : Task) (bytes : List UInt8) : Turn :=
  match backend.pushPcm16 task.calls bytes with
  | .ok updates =>
      settle (task.called (.pushPcm16 bytes (.ok updates)))
        (updates.map fun update => .ok (.ofUpdate update)) (.ok ())
  | .error error => settle (task.called (.pushPcm16 bytes (.error error))) [] (.error error)

def onCommit (backend : VoiceBackend) (task : Task) : Turn :=
  match backend.finish task.calls with
  | .ok finalResult =>
      ⟨{ task.called (.finish (.ok finalResult)) with session := none, committed := true },
        [.ok ⟨finalResult.text, true⟩], false⟩
  | .error error =>
      settle { task.called (.finish (.error error)) with session := none, committed := true }
        [] (.error error)

def onMessage (backend : VoiceBackend) (task : Task) (event : Option StreamEvent) : Turn :=
  match event with
  | some (.config rate) =>
      if task.session = none ∧ task.committed = false then onConfig backend task rate
      else settle task [] (.error .invalidInput)
  | some (.audio bytes) =>
      if task.session.isSome = true ∧ task.committed = false ∧ bytes ≠ [] ∧
        bytes.length ≤ maxStreamAudioBytes then
        onAudio backend task bytes
      else settle task [] (.error .invalidInput)
  | some (.commit true) =>
      if task.session.isSome = true ∧ task.committed = false then onCommit backend task
      else settle task [] (.error .invalidInput)
  | some (.cancel true) => ⟨task, [], false⟩
  | _ => settle task [] (.error .invalidInput)

def onSelected (backend : VoiceBackend) (task : Task) (selected : Selected) : Turn :=
  match selected with
  | .stopped stop => ⟨task, [.error stop.status], false⟩
  | .input .failed => ⟨task, [.error ⟨.cancelled, "input stream failed"⟩], false⟩
  | .input .ended =>
      ⟨task, if task.committed = true then []
        else [.error ⟨.invalidArgument, "stream ended before commit"⟩], false⟩
  | .input (.message event) => onMessage backend task event

theorem onSelected_config (backend : VoiceBackend) (task : Task) (rate : UInt32) :
    onSelected backend task (.input (.message (some (.config rate)))) =
      if task.session = none ∧ task.committed = false then onConfig backend task rate
      else settle task [] (.error .invalidInput) := rfl

theorem onSelected_audio (backend : VoiceBackend) (task : Task) (bytes : List UInt8) :
    onSelected backend task (.input (.message (some (.audio bytes)))) = if task.session.isSome =
      true ∧ task.committed = false ∧ bytes ≠ [] ∧ bytes.length ≤ maxStreamAudioBytes then
      onAudio backend task bytes else settle task [] (.error .invalidInput) :=
  rfl

theorem onSelected_commit (backend : VoiceBackend) (task : Task) :
    onSelected backend task (.input (.message (some (.commit true)))) =
      if task.session.isSome = true ∧ task.committed = false then onCommit backend task
      else settle task [] (.error .invalidInput) := rfl

structure StreamCall where
  task : Task
  /-- Whether the task's loop goes on once all is sent. -/
  running : Bool
  output : Pipe Item
  inbox : List Incoming
  stop : Option RequestStop
  /-- What `select!` has yielded so far. -/
  taken : List Selected

def StreamCall.start : StreamCall := ⟨.start, true, .empty, [], none, []⟩

def StreamCall.turn (backend : VoiceBackend) (s : StreamCall) (selected : Selected) : StreamCall :=
  let turn := onSelected backend s.task selected
  { s with
    task := turn.task
    running := turn.continues
    output := s.output.emit turn.items
    taken := s.taken ++ [selected] }

inductive Label
  | stop (reason : RequestStop)
  | arrive (incoming : Incoming)
  | select
  | send
  | receive
  | drop
deriving DecidableEq

def StreamCall.select (backend : VoiceBackend) (s : StreamCall) : Option StreamCall :=
  if s.output.pending = [] ∧ s.running = true then
    match s.stop, s.inbox with
    | some reason, _ => some (s.turn backend (.stopped reason))
    | none, incoming :: rest => some ({ s with inbox := rest }.turn backend (.input incoming))
    | none, [] => none
  else none

def StreamCall.step (backend : VoiceBackend) (label : Label) (s : StreamCall) : Option StreamCall :=
  match label with
  | .stop reason => some { s with stop := some reason }
  | .arrive incoming => some { s with inbox := s.inbox ++ [incoming] }
  | .select => s.select backend
  -- a failed send ends the task
  | .send =>
      (s.output.send outputQueue).map fun output =>
        { s with output, running := s.running && s.output.reading }
  | .receive => s.output.receive.map fun output => { s with output }
  | .drop => s.output.drop.map fun output => { s with output }

abbrev StreamCall.Reaches (backend : VoiceBackend) (labels : List Label) (s : StreamCall) : Prop :=
  Runs (StreamCall.step backend) .start labels s

def StreamCall.Finished (s : StreamCall) : Prop :=
  s.output.pending = [] ∧ s.running = false ∧ s.output.queue = []

def StreamCall.Waiting (s : StreamCall) : Prop :=
  s.output.pending = [] ∧ s.running = true ∧ s.output.queue = [] ∧ s.inbox = [] ∧ s.stop = none

def StreamCall.Quiet (backend : VoiceBackend) (s : StreamCall) : Prop :=
  s.step backend .select = none ∧ s.step backend .send = none ∧ s.step backend .receive = none

end ImpossibleVoice.Server
