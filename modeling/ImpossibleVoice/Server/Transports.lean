import ImpossibleVoice.Server.Failures
import ImpossibleVoice.Server.StreamDelivery

namespace ImpossibleVoice.Server

open Lib
open Stt (Transcript TranscriptKind)

structure Dictation where
  calls : List VoiceCall
  transcripts : List Transcript
  failure : Option VoiceBackendError

def dictateFrom (backend : VoiceBackend) : List VoiceCall → List (List UInt8) → Dictation
  | calls, [] =>
      match backend.finish calls with
      | .ok update => ⟨calls ++ [.finish (.ok update)], [update], none⟩
      | .error error => ⟨calls ++ [.finish (.error error)], [], some error⟩
  | calls, frame :: frames =>
      match backend.pushPcm16 calls frame with
      | .ok updates =>
          let rest := dictateFrom backend (calls ++ [.pushPcm16 frame (.ok updates)]) frames
          ⟨rest.calls, updates ++ rest.transcripts, rest.failure⟩
      | .error error => ⟨calls ++ [.pushPcm16 frame (.error error)], [], some error⟩

def dictate (backend : VoiceBackend) (rate : UInt32) (frames : List (List UInt8)) : Dictation :=
  match backend.startTranscription [] rate with
  | .ok opened => dictateFrom backend [.startTranscription rate (.ok opened)] frames
  | .error error => ⟨[.startTranscription rate (.error error)], [], some error⟩

def Dictation.FailsLast (d : Dictation) : Prop :=
  ∃ front call, d.calls = front ++ [call] ∧ call.failure = d.failure ∧
    ∀ earlier ∈ front, earlier.failure = none

theorem dictateFrom_failsLast (backend : VoiceBackend) (frames : List (List UInt8))
    {calls : List VoiceCall} (h : ∀ call ∈ calls, call.failure = none) :
    (dictateFrom backend calls frames).FailsLast := by
  induction frames generalizing calls with
  | nil =>
      unfold dictateFrom
      cases backend.finish calls with
      | ok update => exact ⟨calls, _, rfl, rfl, h⟩
      | error error => exact ⟨calls, _, rfl, rfl, h⟩
  | cons frame frames ih =>
      unfold dictateFrom
      cases backend.pushPcm16 calls frame with
      | error error => exact ⟨calls, _, rfl, rfl, h⟩
      | ok updates =>
          refine ih fun call hcall => ?_
          rcases List.mem_append.mp hcall with hcall | hcall
          · exact h call hcall
          · rw [List.mem_singleton.mp hcall]
            rfl

theorem dictate_failsLast (backend : VoiceBackend) (rate : UInt32) (frames : List (List UInt8)) :
    (dictate backend rate frames).FailsLast := by
  unfold dictate
  cases backend.startTranscription [] rate with
  | error error => exact ⟨[], _, rfl, rfl, by simp⟩
  | ok opened =>
      apply dictateFrom_failsLast
      intro call hcall
      rw [List.mem_singleton.mp hcall]
      rfl

def announced (frame : List UInt8) : List Input :=
  [.received (.text (some (.audioAppend frame.length))), .received (.binary frame)]

def webSocketScript (rate : UInt32) (frames : List (List UInt8)) : List Input :=
  .received (.text (some (.sessionStart .stt (some rate)))) ::
    (frames.flatMap announced ++ [.received (.text (some .audioCommit))])

def grpcScript (rate : UInt32) (frames : List (List UInt8)) : List Incoming :=
  .message (some (.config rate)) ::
    (frames.map (fun frame => .message (some (.audio frame))) ++ [.message (some (.commit true))])

def ServerEvent.transcript (event : ServerEvent) : Option Transcript :=
  match event.kind, event.text with
  | .transcriptInterim, some text => some ⟨.interim, text⟩
  | .transcriptFinal, some text => some ⟨.final, text⟩
  | _, _ => none

def Frame.transcript : Frame → Option Transcript
  | text event => event.transcript
  | _ => none

def Frame.errorCode : Frame → Option ErrorCode
  | text event => if event.kind = .error then event.code else none
  | _ => none

def itemTranscript : Item → Option Transcript
  | .ok event => some ⟨if event.final then .final else .interim, event.text⟩
  | .error _ => none

def itemStatus : Item → Option Status
  | .ok _ => none
  | .error status => some status

namespace Endpoint

variable {endpoint : Endpoint} {c : Connection} {α : Type}

theorem run_send_sent (hwire : ∀ n, endpoint.wire n = .sent) (c : Connection) (frame : Frame) :
    (endpoint.send frame).run c = .ok () (c.sent frame) := by
  rw [send, run_bind_of_ok (run_gets _ _), hwire]
  rfl

theorem run_sendAll_sent (hwire : ∀ n, endpoint.wire n = .sent) (c : Connection)
    (frames : List Frame) : (endpoint.sendAll frames).run c = .ok () (c.sentAll frames) := by
  induction frames generalizing c with
  | nil => rw [sendAll, EStateM.run_pure, Connection.sentAll_nil]
  | cons frame frames ih =>
      rw [sendAll, run_bind_of_ok (run_send_sent hwire c frame), ih, Connection.sentAll_cons]

theorem run_failBackend_sent (hwire : ∀ n, endpoint.wire n = .sent) (c : Connection)
    (error : VoiceBackendError) :
    (endpoint.failBackend error : Ws α).run c =
      .error .failed
      ((c.fail error).sent (.text (endpoint.errorEvent (ApiError.ofBackend error).code))) := by
  rw [failBackend, run_bind_of_ok (EStateM.run_modify _ _), reject, sendEvent,
    run_bind_of_ok (run_send_sent hwire _ _)]
  rfl

theorem run_startTranscription (c : Connection) (rate : UInt32) :
    (endpoint.startTranscription rate).run c =
      .ok (endpoint.backend.startTranscription c.calls rate)
      (c.called (.startTranscription rate (endpoint.backend.startTranscription c.calls rate))) :=
  rfl

theorem run_pushPcm16 (c : Connection) (bytes : List UInt8) : (endpoint.pushPcm16 bytes).run c =
    .ok (endpoint.backend.pushPcm16 c.calls bytes)
      (c.called (.pushPcm16 bytes (endpoint.backend.pushPcm16 c.calls bytes))) := rfl

theorem run_finish (c : Connection) :
    endpoint.finish.run c =
      .ok (endpoint.backend.finish c.calls)
      (c.called (.finish (endpoint.backend.finish c.calls))) :=
  rfl

theorem run_rejectIf_neg {p : Prop} [Decidable p] (h : ¬ p) (code : ErrorCode) (c : Connection) :
    (endpoint.rejectIf p code).run c = .ok () c := by
  rw [rejectIf, if_neg h]
  rfl

structure Listening (c : Connection) : Prop where
  session : c.session = ⟨some .stt, none, some .boxed, false, none⟩
  worker : c.worker = none

theorem run_loop_cons {input : Input} {inputs : List Input} {d : Connection}
    (h : (endpoint.step input).run c = .ok () d) :
    (endpoint.websocketLoop (input :: inputs)).run c = (endpoint.websocketLoop inputs).run d := by
  rw [websocketLoop, run_bind_of_ok h]

theorem run_loop_cons_error {input : Input} {inputs : List Input} {d : Connection} {exit : Exit}
    (h : (endpoint.step input).run c = .error exit d) :
    (endpoint.websocketLoop (input :: inputs)).run c = .error exit d := by
  rw [websocketLoop, run_bind_of_error h]

theorem run_step_receiving (hworker : c.worker = none) (input : Input) :
    (endpoint.step input).run c = (endpoint.whileReceiving input).run c := by
  rw [step, run_bind_of_ok (run_gets _ _), hworker]

theorem run_onText {event : ClientEvent} {done : Bool} {d : Connection}
    (hidle : c.session.pendingAudio = none)
    (h : (endpoint.handleClientEvent event).run c = .ok done d) :
    (endpoint.onText (some event)).run c = if done = true then .error .closed d else .ok () d := by
  rw [onText, run_bind_of_ok (run_gets _ _), hidle, run_bind_of_ok (run_rejectIf_neg (by simp) _ _),
    run_bind_of_ok h]
  cases done <;> rfl

theorem run_onText_error {event : ClientEvent} {exit : Exit} {d : Connection}
    (hidle : c.session.pendingAudio = none)
    (h : (endpoint.handleClientEvent event).run c = .error exit d) :
    (endpoint.onText (some event)).run c = .error exit d := by
  rw [onText, run_bind_of_ok (run_gets _ _), hidle, run_bind_of_ok (run_rejectIf_neg (by simp) _ _),
    run_bind_of_error h]

theorem run_audioAppend (endpoint : Endpoint) (h : Listening c) {bytes : Nat}
    (hbytes : 0 < bytes ∧ bytes ≤ maxWsMessageBytes) :
    (endpoint.step (.received (.text (some (.audioAppend bytes))))).run c =
      .ok () (c.setPending (some bytes)) := by
  have hguard : c.session.mode = some .stt ∧ c.session.completed = false ∧ 0 < bytes ∧
      bytes ≤ maxWsMessageBytes := by
    rw [h.session]
    exact ⟨rfl, rfl, hbytes⟩
  have hhandle : (endpoint.handleClientEvent (.audioAppend bytes)).run c =
      .ok false (c.setPending (some bytes)) := by
    rw [handleClientEvent, run_bind_of_ok (run_gets _ _)]
    simp only [if_pos hguard]
    rfl
  rw [run_step_receiving h.worker, whileReceiving, run_onText (by rw [h.session]) hhandle,
    if_neg (by simp)]

theorem setPending_none (h : Listening c) (pending : Option Nat) :
    (c.setPending pending).setPending none = c := by
  obtain ⟨⟨mode, pendingAudio, transcriber, completed, failure⟩, worker, token, calls, frames,
      sends⟩ := c
  cases h.session
  rfl

theorem run_binary (hwire : ∀ n, endpoint.wire n = .sent) (h : Listening c) {bytes : List UInt8}
    (hbytes : bytes.length ≤ maxWsMessageBytes) :
    (endpoint.step (.received (.binary bytes))).run (c.setPending (some bytes.length)) =
      match endpoint.backend.pushPcm16 c.calls bytes with
      | .ok updates => .ok () ((c.called (.pushPcm16 bytes (.ok updates))).sentAll
          (updates.map fun update => .text (endpoint.transcriptEvent update)))
      | .error error =>
          .error .failed (((c.called (.pushPcm16 bytes (.error error))).fail error).sent
          (.text (endpoint.errorEvent (ApiError.ofBackend error).code))) := by
  rw [run_step_receiving (by exact h.worker), whileReceiving, onBinary,
    run_bind_of_ok (run_gets _ _), run_bind_of_ok (EStateM.run_modify _ _), setPending_none h]
  have hpending : (c.setPending (some bytes.length)).session.pendingAudio = some bytes.length := rfl
  have htranscriber : (c.setPending (some bytes.length)).session.transcriber = some .boxed :=
    congrArg SessionState.transcriber h.session
  rw [hpending, htranscriber]
  simp only
  rw [run_bind_of_ok (run_rejectIf_neg (by omega) _ _),
    run_bind_of_ok (run_rejectIf_neg (by simp) _ _), run_bind_of_ok (run_pushPcm16 _ _)]
  cases endpoint.backend.pushPcm16 c.calls bytes with
  | ok updates => exact run_sendAll_sent hwire _ _
  | error error => exact run_failBackend_sent hwire _ _

theorem run_audioCommit (hwire : ∀ n, endpoint.wire n = .sent) (h : Listening c) :
    (endpoint.step (.received (.text (some .audioCommit)))).run c =
      match endpoint.backend.finish c.calls with
      | .ok update => .ok () ((((c.setTranscriber none).called (.finish (.ok update))).sent
          (.text (endpoint.transcriptEvent update))).complete.sent
            (.text (endpoint.event .sessionCompleted)))
      | .error error =>
          .error .failed
            ((((c.setTranscriber none).called (.finish (.error error))).fail error).sent
          (.text (endpoint.errorEvent (ApiError.ofBackend error).code))) := by
  have hguard : c.session.mode = some .stt ∧ c.session.completed = false := by
    rw [h.session]
    exact ⟨rfl, rfl⟩
  have hhandle : (endpoint.handleClientEvent .audioCommit).run c =
      endpoint.onAudioCommit.run c := by
    rw [handleClientEvent, run_bind_of_ok (run_gets _ _)]
    simp only [if_pos hguard]
  have hcommit : endpoint.onAudioCommit.run c = match endpoint.backend.finish c.calls with
      | .ok update => .ok false ((((c.setTranscriber none).called (.finish (.ok update))).sent
          (.text (endpoint.transcriptEvent update))).complete.sent
            (.text (endpoint.event .sessionCompleted)))
      | .error error =>
          .error .failed
            ((((c.setTranscriber none).called (.finish (.error error))).fail error).sent
          (.text (endpoint.errorEvent (ApiError.ofBackend error).code))) := by
    rw [onAudioCommit, run_bind_of_ok (run_gets _ _)]
    simp only [h.session]
    rw [run_bind_of_ok (EStateM.run_modify _ _), run_bind_of_ok (run_finish _)]
    have hcalls : (c.setTranscriber none).calls = c.calls := rfl
    rw [hcalls]
    cases endpoint.backend.finish c.calls with
    | error error => exact run_failBackend_sent hwire _ _
    | ok update =>
        simp only [sendTranscript, sendEvent]
        rw [run_bind_of_ok (run_send_sent hwire _ _), run_bind_of_ok (EStateM.run_modify _ _),
          run_bind_of_ok (run_send_sent hwire _ _)]
        rfl
  rw [run_step_receiving h.worker, whileReceiving]
  cases hfinish : endpoint.backend.finish c.calls with
  | ok update =>
      rw [hfinish] at hcommit
      rw [run_onText (by rw [h.session]) (hhandle.trans hcommit), if_neg (by simp)]
  | error error =>
      rw [hfinish] at hcommit
      rw [run_onText_error (by rw [h.session]) (hhandle.trans hcommit)]

def transcriptFrames (endpoint : Endpoint) (transcripts : List Transcript) : List Frame :=
  transcripts.map fun update => .text (endpoint.transcriptEvent update)

/-- A loop that came to the end of a dictation, after what it had `shown`. -/
def Serves (endpoint : Endpoint) (shown : List Frame) (d : Dictation)
    (result : EStateM.Result Exit Connection Unit) : Prop :=
  match d.failure with
  | none => ∃ c, result = .ok () c ∧ c.calls = d.calls ∧
      c.frames =
        shown ++ endpoint.transcriptFrames d.transcripts ++
        [.text (endpoint.event .sessionCompleted)]
  | some error =>
      ∃ c, result = .error .failed c ∧ c.calls = d.calls ∧ c.session.failure = some error ∧
      c.frames = shown ++ endpoint.transcriptFrames d.transcripts ++
        [.text (endpoint.errorEvent (ApiError.ofBackend error).code)]

theorem Serves.after {shown : List Frame} {updates : List Transcript} {d : Dictation}
    {result : EStateM.Result Exit Connection Unit}
    (h : endpoint.Serves (shown ++ endpoint.transcriptFrames updates) d result) :
    endpoint.Serves shown ⟨d.calls, updates ++ d.transcripts, d.failure⟩ result := by
  have hshown : shown ++ endpoint.transcriptFrames updates ++
      endpoint.transcriptFrames d.transcripts =
      shown ++ endpoint.transcriptFrames (updates ++ d.transcripts) := by
    rw [transcriptFrames, transcriptFrames, transcriptFrames, List.map_append, List.append_assoc]
  unfold Serves at h ⊢
  rw [hshown] at h
  exact h

theorem Listening.called (h : Listening c) (call : VoiceCall) (frames : List Frame) :
    Listening ((c.called call).sentAll frames) := ⟨h.session, h.worker⟩

theorem run_dictateFrom (hwire : ∀ n, endpoint.wire n = .sent) {frames : List (List UInt8)}
    (hframes : ∀ frame ∈ frames, frame ≠ [] ∧ frame.length ≤ maxWsMessageBytes) (h : Listening c) :
    endpoint.Serves c.frames (dictateFrom endpoint.backend c.calls frames)
      ((endpoint.websocketLoop
      (frames.flatMap announced ++ [.received (.text (some .audioCommit))])).run c) := by
  induction frames generalizing c with
  | nil =>
      have hcommit := run_audioCommit hwire h
      unfold dictateFrom
      cases hfinish : endpoint.backend.finish c.calls with
      | ok update =>
          rw [hfinish] at hcommit
          exact ⟨_, run_loop_cons hcommit, rfl, rfl⟩
      | error error =>
          rw [hfinish] at hcommit
          refine ⟨_, run_loop_cons_error hcommit, rfl, rfl, ?_⟩
          simp [transcriptFrames, Connection.sent, Connection.fail, Connection.called,
            Connection.setTranscriber]
  | cons frame frames ih =>
      obtain ⟨hne, hlen⟩ := hframes frame List.mem_cons_self
      have happend := run_audioAppend endpoint h ⟨List.length_pos_iff.mpr hne, hlen⟩
      have hbinary := run_binary hwire h hlen
      have hscript (inputs : List Input) : (frame :: frames).flatMap announced ++ inputs =
          .received (.text (some (.audioAppend frame.length))) :: .received (.binary frame) ::
            (frames.flatMap announced ++ inputs) := by
        simp [announced]
      rw [hscript, run_loop_cons happend]
      unfold dictateFrom
      cases hpush : endpoint.backend.pushPcm16 c.calls frame with
      | error error =>
          rw [hpush] at hbinary
          refine ⟨_, run_loop_cons_error hbinary, rfl, rfl, ?_⟩
          simp [transcriptFrames, Connection.sent, Connection.fail, Connection.called]
      | ok updates =>
          rw [hpush] at hbinary
          rw [run_loop_cons hbinary]
          apply Serves.after
          exact ih
            (fun other hother => hframes other (List.mem_cons_of_mem _ hother)) (h.called _ _)

theorem run_sessionStart (hwire : ∀ n, endpoint.wire n = .sent) (rate : UInt32) :
    (endpoint.step (.received (.text (some (.sessionStart .stt (some rate)))))).run .start =
      match endpoint.backend.startTranscription [] rate with
      | .ok opened =>
          .ok ()
            ((((Connection.start.setMode .stt).called
              (.startTranscription rate (.ok opened))).setTranscriber
              (some .boxed)).sent (.text (endpoint.event .sessionReady)))
      | .error error => .error .failed ((((Connection.start.setMode .stt).called
          (.startTranscription rate (.error error))).fail error).sent
            (.text (endpoint.errorEvent (ApiError.ofBackend error).code))) := by
  have hhandle : (endpoint.handleClientEvent (.sessionStart .stt (some rate))).run .start =
      (endpoint.onSessionStart .stt (some rate)).run .start := by
    rw [handleClientEvent, run_bind_of_ok (run_gets _ _)]
    rfl
  have hcalls : (Connection.start.setMode .stt).calls = [] := rfl
  rw [run_step_receiving rfl, whileReceiving]
  rw [onSessionStart, run_bind_of_ok (EStateM.run_modify _ _), openSession, openTranscriber,
    EStateM.run_bind, run_bind_of_ok (run_startTranscription _ _), hcalls] at hhandle
  cases hstart : endpoint.backend.startTranscription [] rate with
  | error error =>
      rw [hstart] at hhandle
      simp only [run_failBackend_sent hwire] at hhandle
      exact run_onText_error rfl hhandle
  | ok opened =>
      rw [hstart] at hhandle
      simp only [EStateM.run_modify, sendEvent] at hhandle
      rw [run_bind_of_ok (run_send_sent hwire _ _), EStateM.run_pure] at hhandle
      rw [run_onText rfl hhandle, if_neg (by simp)]

theorem run_dictate (hwire : ∀ n, endpoint.wire n = .sent) (rate : UInt32)
    {frames : List (List UInt8)}
    (hframes : ∀ frame ∈ frames, frame ≠ [] ∧ frame.length ≤ maxWsMessageBytes) :
    ∃ shown, shown.filterMap Frame.transcript = [] ∧ shown.filterMap Frame.errorCode = [] ∧
    endpoint.Serves shown (dictate endpoint.backend rate frames)
      ((endpoint.websocketLoop (webSocketScript rate frames)).run .start) := by
  have hstep := run_sessionStart hwire rate
  unfold dictate webSocketScript
  cases hstart : endpoint.backend.startTranscription [] rate with
  | error error =>
      rw [hstart] at hstep
      exact ⟨[], rfl, rfl, _, run_loop_cons_error hstep, rfl, rfl, rfl⟩
  | ok opened =>
      rw [hstart] at hstep
      refine ⟨[.text (endpoint.event .sessionReady)], rfl, rfl, ?_⟩
      rw [run_loop_cons hstep]
      have hready :
          Listening
          ((((Connection.start.setMode .stt).called
          (.startTranscription rate (.ok opened))).setTranscriber
          (some .boxed)).sent (.text (endpoint.event .sessionReady))) := ⟨rfl, rfl⟩
      exact run_dictateFrom hwire hframes hready

end Endpoint

def deliveredItems (transcripts : List Transcript) : List Item :=
  transcripts.map fun update => .ok (.ofUpdate update)

/-- A production that came to the end of a dictation, after what it had `shown`. -/
structure Production.Serves (p : Production) (shown : List Item) (d : Dictation) : Prop where
  running : p.running = false
  calls : p.task.calls = d.calls
  items : p.items = shown ++ deliveredItems d.transcripts ++
    (d.failure.map fun error => Except.error (mapBackendError error)).toList

theorem Production.Serves.after {p : Production} {shown : List Item} {updates : List Transcript}
    {d : Dictation} (h : p.Serves (shown ++ deliveredItems updates) d) :
    p.Serves shown ⟨d.calls, updates ++ d.transcripts, d.failure⟩ := by
  refine ⟨h.running, h.calls, ?_⟩
  rw [h.items, deliveredItems, deliveredItems, deliveredItems, List.map_append,
    List.append_assoc shown]

structure Production.Listening (p : Production) : Prop where
  running : p.running = true
  committed : p.task.committed = false
  session : p.task.session = some .boxed

theorem Production.Listening.next_audio {backend : VoiceBackend} {p : Production}
    (h : p.Listening) {bytes : List UInt8} (hbytes : Payload bytes) :
    p.next backend (.input (.message (some (.audio bytes)))) =
      match backend.pushPcm16 p.task.calls bytes with
      | .ok updates =>
          ⟨p.task.called (.pushPcm16 bytes (.ok updates)), p.items ++ deliveredItems updates, true⟩
      | .error error => ⟨p.task.called (.pushPcm16 bytes (.error error)),
          p.items ++ [.error (mapBackendError error)], false⟩ := by
  have hguard : p.task.session.isSome = true ∧ p.task.committed = false ∧ bytes ≠ [] ∧
      bytes.length ≤ maxStreamAudioBytes := ⟨by rw [h.session]; rfl, h.committed, hbytes⟩
  rw [next_running h.running, onSelected_audio, if_pos hguard, onAudio]
  cases backend.pushPcm16 p.task.calls bytes with
  | error error => rfl
  | ok updates => simp [settle, Task.called, h.committed, deliveredItems]

theorem Production.Listening.next_commit {backend : VoiceBackend} {p : Production}
    (h : p.Listening) :
    p.next backend (.input (.message (some (.commit true)))) =
      match backend.finish p.task.calls with
      | .ok update =>
          ⟨{ p.task.called (.finish (.ok update)) with session := none, committed := true },
          p.items ++ [.ok ⟨update.text, true⟩], false⟩
      | .error error =>
          ⟨{ p.task.called (.finish (.error error)) with session := none, committed := true },
          p.items ++ [.error (mapBackendError error)], false⟩ := by
  have hguard : p.task.session.isSome = true ∧ p.task.committed = false :=
    ⟨by rw [h.session]; rfl, h.committed⟩
  rw [next_running h.running, onSelected_commit, if_pos hguard, onCommit]
  cases backend.finish p.task.calls with
  | error error => rfl
  | ok update => rfl

theorem foldl_next_of_stopped {backend : VoiceBackend} {p : Production} (h : p.running = false)
    (rest : List Selected) : rest.foldl (Production.next backend) p = p := by
  induction rest with
  | nil => rfl
  | cons selected rest ih => rw [List.foldl_cons, Production.next_of_stopped h, ih]

theorem produce_dictateFrom {backend : VoiceBackend} (hfinal : backend.FinishesFinal)
    {frames : List (List UInt8)} (hframes : ∀ frame ∈ frames, Payload frame) {p : Production}
    (h : p.Listening) :
    ((((frames.map fun frame => Incoming.message (some (.audio frame))) ++
      [Incoming.message (some (.commit true))]).map Selected.input).foldl (Production.next backend)
      p).Serves p.items (dictateFrom backend p.task.calls frames) := by
  induction frames generalizing p with
  | nil =>
      rw [List.map_nil, List.nil_append, List.map_singleton, List.foldl_cons, List.foldl_nil,
        h.next_commit]
      unfold dictateFrom
      cases hfinish : backend.finish p.task.calls with
      | error error => exact ⟨rfl, rfl, by simp [deliveredItems]⟩
      | ok update =>
          refine ⟨rfl, rfl, ?_⟩
          simp [deliveredItems, TranscriptEvent.ofUpdate, hfinal _ _ hfinish]
  | cons frame frames ih =>
      rw [List.map_cons, List.cons_append, List.map_cons, List.foldl_cons,
        h.next_audio (hframes frame List.mem_cons_self)]
      unfold dictateFrom
      cases hpush : backend.pushPcm16 p.task.calls frame with
      | error error =>
          simp only
          rw [foldl_next_of_stopped rfl]
          exact ⟨rfl, rfl, by simp [deliveredItems]⟩
      | ok updates =>
          apply Production.Serves.after
          exact ih (fun other hother => hframes other (List.mem_cons_of_mem _ hother))
            ⟨rfl, h.committed, h.session⟩

theorem produce_dictate {backend : VoiceBackend} (hfinal : backend.FinishesFinal) (rate : UInt32)
    {frames : List (List UInt8)} (hframes : ∀ frame ∈ frames, Payload frame) :
    (produce backend ((grpcScript rate frames).map Selected.input)).Serves []
      (dictate backend rate frames) := by
  have hconfig : Production.start.next backend (.input (.message (some (.config rate)))) =
      match backend.startTranscription [] rate with
      | .ok opened => ⟨⟨some .boxed, false, [.startTranscription rate (.ok opened)]⟩, [], true⟩
      | .error error =>
          ⟨⟨none, false, [.startTranscription rate (.error error)]⟩,
            [.error (mapBackendError error)], false⟩ := by
    rw [Production.next_running rfl, onSelected_config, if_pos ⟨rfl, rfl⟩, onConfig]
    have hcalls : Production.start.task.calls = [] := rfl
    rw [hcalls]
    cases backend.startTranscription [] rate with
    | ok opened => rfl
    | error error => rfl
  rw [produce, grpcScript, List.map_cons, List.foldl_cons, hconfig]
  unfold dictate
  cases backend.startTranscription [] rate with
  | error error =>
      simp only
      rw [foldl_next_of_stopped rfl]
      exact ⟨rfl, rfl, rfl⟩
  | ok opened =>
      have hopen :
          Production.Listening
          ⟨⟨some .boxed, false, [.startTranscription rate (.ok opened)]⟩, [], true⟩ :=
        ⟨rfl, rfl, rfl⟩
      exact produce_dictateFrom hfinal hframes hopen

theorem undisturbed {backend : VoiceBackend} {labels : List Label} {s : StreamCall}
    (h : StreamCall.Reaches backend labels s) (hstop : ∀ reason, .stop reason ∉ labels)
    (hdrop : .drop ∉ labels) :
    s.output.reading = true ∧ s.taken = (consumed s.taken).map .input := by
  have hall : (∀ reason, .stop reason ∉ labels) → .drop ∉ labels →
      s.stop = none ∧ s.output.reading = true ∧ s.taken = (consumed s.taken).map .input := by
    refine h.invariant (P := fun labels s => (∀ reason, .stop reason ∉ labels) → .drop ∉ labels →
      s.stop = none ∧ s.output.reading = true ∧ s.taken = (consumed s.taken).map .input)
      (fun _ _ => ⟨rfl, rfl, rfl⟩) ?_
    intro labels s label t ih hstep hstop hdrop
    obtain ⟨hnone, hreading, htaken⟩ :=
      ih (fun reason hr => hstop reason (List.mem_append_left _ hr))
      (fun hr => hdrop (List.mem_append_left _ hr))
    cases label with
    | stop reason => exact absurd (List.mem_append_right _ List.mem_cons_self) (hstop reason)
    | drop => exact absurd (List.mem_append_right _ List.mem_cons_self) hdrop
    | arrive incoming =>
        cases hstep
        exact ⟨hnone, hreading, htaken⟩
    | select =>
        obtain ⟨_, _, ⟨reason, hsome, _⟩ | ⟨incoming, rest, _, _, rfl⟩⟩ := select_eq_some hstep
        · exact absurd (hnone.symm.trans hsome) (by simp)
        · refine ⟨hnone, hreading, ?_⟩
          simp only [StreamCall.turn, consumed_snoc, List.map_append, ← htaken]
          rfl
    | send =>
        obtain ⟨output, hsend, rfl⟩ := Option.map_eq_some_iff.mp hstep
        exact ⟨hnone, (Pipe.send_reading hsend).trans hreading, htaken⟩
    | receive =>
        obtain ⟨output, hreceive, rfl⟩ := Option.map_eq_some_iff.mp hstep
        obtain ⟨_, _, _, _, rfl⟩ := Pipe.receive_eq_some hreceive
        exact ⟨hnone, hreading, htaken⟩
  exact (hall hstop hdrop).2

/-- A quiet stream has delivered its whole production. -/
theorem served_of_quiet {backend : VoiceBackend} (hfinal : backend.FinishesFinal) {rate : UInt32}
    {frames : List (List UInt8)} (hframes : ∀ frame ∈ frames, Payload frame) {labels : List Label}
    {s : StreamCall} (h : StreamCall.Reaches backend labels s)
    (hscript : arrivals labels = grpcScript rate frames) (hstop : ∀ reason, .stop reason ∉ labels)
    (hdrop : .drop ∉ labels) (hquiet : s.Quiet backend) :
    s.Finished ∧
    Production.Serves ⟨s.task, s.output.received, false⟩ [] (dictate backend rate frames) := by
  have href := refines_of_reaches h
  have hserves := produce_dictate hfinal rate hframes
  obtain ⟨hreading, htaken⟩ := undisturbed h hstop hdrop
  have hinbox := (consumed_append_inbox h).trans hscript
  have hall := href.carries.of_reading hreading
  rcases finished_or_waiting_of_quiet hreading hquiet with hfinished | hwaiting
  · have hproduced : produce backend ((grpcScript rate frames).map .input) =
        produce backend s.taken := by
      rw [← hinbox, List.map_append, ← htaken, produce, List.foldl_append]
      exact foldl_next_of_stopped (href.stopped hreading hfinished.2.1) _
    rw [hproduced] at hserves
    rw [hfinished.1, hfinished.2.2, List.append_nil, List.append_nil] at hall
    refine ⟨hfinished, rfl, ?_, ?_⟩
    · rw [← hserves.calls, href.task]
    · rw [← hserves.items, hall]
  · have hscripted : s.taken = (grpcScript rate frames).map .input := by
      rw [htaken, ← hinbox, hwaiting.2.2.2.1, List.append_nil]
    have hrunning := href.running hwaiting.2.1
    rw [hscripted, hserves.running] at hrunning
    cases hrunning

theorem filterMap_transcriptFrames (endpoint : Endpoint) (transcripts : List Transcript) :
    (endpoint.transcriptFrames transcripts).filterMap Frame.transcript = transcripts := by
  have hsome : (Frame.transcript ∘ fun update => .text (endpoint.transcriptEvent update)) =
      some := by
    funext update
    obtain ⟨kind, text⟩ := update
    cases kind <;> rfl
  rw [Endpoint.transcriptFrames, List.filterMap_map, hsome, List.filterMap_some]

theorem filterMap_errorCode_transcriptFrames (endpoint : Endpoint) (transcripts : List Transcript) :
    (endpoint.transcriptFrames transcripts).filterMap Frame.errorCode = [] := by
  rw [Endpoint.transcriptFrames, List.filterMap_map, List.filterMap_eq_nil_iff]
  rintro ⟨kind, text⟩ _
  cases kind <;> rfl

theorem filterMap_deliveredItems (transcripts : List Transcript) :
    (deliveredItems transcripts).filterMap itemTranscript = transcripts ∧
      (deliveredItems transcripts).filterMap itemStatus = [] := by
  have hsome : (itemTranscript ∘ fun update : Transcript => .ok (.ofUpdate update)) = some := by
    funext update
    obtain ⟨kind, text⟩ := update
    cases kind <;> rfl
  refine ⟨?_, ?_⟩
  · rw [deliveredItems, List.filterMap_map, hsome, List.filterMap_some]
  · rw [deliveredItems, List.filterMap_map, List.filterMap_eq_nil_iff]
    exact fun _ _ => rfl

structure Spoken (t : Transmission) (d : Dictation) : Prop where
  calls : t.calls = d.calls
  transcripts : t.frames.filterMap Frame.transcript = d.transcripts
  code : t.frames.filterMap Frame.errorCode =
    (d.failure.map fun error => (ApiError.ofBackend error).code).toList
  close : t.close.map Prod.fst = d.failure.map fun error =>
    documentedClose (ApiError.ofBackend error).code

theorem webSocket_refines_dictate {endpoint : Endpoint} (hwire : ∀ n, endpoint.wire n = .sent)
    (rate : UInt32) {frames : List (List UInt8)}
    (hframes : ∀ frame ∈ frames, frame ≠ [] ∧ frame.length ≤ maxWsMessageBytes) :
    Spoken (endpoint.websocketSession (webSocketScript rate frames))
      (dictate endpoint.backend rate frames) := by
  obtain ⟨shown, htexts, hcodes, hserves⟩ := Endpoint.run_dictate hwire rate hframes
  generalize dictate endpoint.backend rate frames = d at hserves ⊢
  obtain ⟨calls, transcripts, failure⟩ := d
  cases failure with
  | none =>
      obtain ⟨c, hrun, hcalls, hsent⟩ := hserves
      rw [Endpoint.session_of_ok hrun]
      refine ⟨hcalls, ?_, ?_, rfl⟩
      · rw [hsent, List.filterMap_append, List.filterMap_append, htexts, filterMap_transcriptFrames,
          List.nil_append]
        exact List.append_nil _
      · rw [hsent, List.filterMap_append, List.filterMap_append, hcodes,
          filterMap_errorCode_transcriptFrames]
        rfl
  | some error =>
      obtain ⟨c, hrun, hcalls, hfailure, hsent⟩ := hserves
      rw [Endpoint.session_of_error hrun, hwire, if_neg (by simp), Endpoint.ended_frames (by simp)]
      refine ⟨hcalls, ?_, ?_, ?_⟩
      · rw [hsent, List.filterMap_append, List.filterMap_append, htexts, filterMap_transcriptFrames,
          List.nil_append]
        exact List.append_nil _
      · rw [hsent, List.filterMap_append, List.filterMap_append, hcodes,
          filterMap_errorCode_transcriptFrames]
        rfl
      · rw [hfailure]
        cases error <;> rfl

theorem grpc_items {p : Production} {d : Dictation} (h : p.Serves [] d) :
    p.items.filterMap itemTranscript = d.transcripts ∧
      p.items.filterMap itemStatus = (d.failure.map mapBackendError).toList := by
  obtain ⟨htexts, hstatuses⟩ := filterMap_deliveredItems d.transcripts
  rw [h.items, List.nil_append, List.filterMap_append, List.filterMap_append, htexts, hstatuses]
  cases d.failure with
  | none => exact ⟨List.append_nil _, rfl⟩
  | some error => exact ⟨List.append_nil _, rfl⟩

/-- The two realtime transports, seen from the backend and from their clients. -/
structure SameDictation (t : Transmission) (s : StreamCall) : Prop where
  finished : s.Finished
  calls : t.calls = s.task.calls
  transcripts : t.frames.filterMap Frame.transcript = s.output.received.filterMap itemTranscript
  failure : ∃ failure : Option VoiceBackendError,
    (∃ front call, t.calls = front ++ [call] ∧ call.failure = failure ∧
      ∀ earlier ∈ front, earlier.failure = none) ∧
    t.frames.filterMap Frame.errorCode =
      (failure.map fun error => (ApiError.ofBackend error).code).toList ∧
    t.close.map Prod.fst =
      failure.map (fun error => documentedClose (ApiError.ofBackend error).code) ∧
    s.output.received.filterMap itemStatus = (failure.map mapBackendError).toList

theorem realtime_transports_are_equivalent (endpoint : Endpoint)
    (hwire : ∀ n, endpoint.wire n = .sent) (hfinal : endpoint.backend.FinishesFinal)
    (rate : UInt32) (frames : List (List UInt8))
    (hframes : ∀ frame ∈ frames, frame ≠ [] ∧ frame.length ≤ 65536) (labels : List Label)
    (s : StreamCall) (h : StreamCall.Reaches endpoint.backend labels s)
    (hscript : arrivals labels = grpcScript rate frames) (hstop : ∀ reason, .stop reason ∉ labels)
    (hdrop : .drop ∉ labels) (hquiet : s.Quiet endpoint.backend) :
    SameDictation (endpoint.websocketSession (webSocketScript rate frames)) s := by
  obtain ⟨hfinished, hserves⟩ := served_of_quiet hfinal hframes h hscript hstop hdrop hquiet
  obtain ⟨htranscripts, hstatus⟩ := grpc_items hserves
  have hspoken := webSocket_refines_dictate hwire rate hframes
  obtain ⟨front, call, hcalls, hcall, hfront⟩ := dictate_failsLast endpoint.backend rate frames
  exact ⟨hfinished, hspoken.calls.trans hserves.calls.symm,
    hspoken.transcripts.trans htranscripts.symm,
    (dictate endpoint.backend rate frames).failure,
      ⟨front, call, hspoken.calls.trans hcalls, hcall, hfront⟩,
    hspoken.code, hspoken.close, hstatus⟩

theorem one_command_on_both_transports :
    ((liveEndpoint fakeBackend).websocketSession (webSocketScript 16000 [[0, 0]])).frames.filterMap
      Frame.transcript = [⟨.interim, "partial-2"⟩, ⟨.final, "final-2"⟩] ∧
    SameDictation ((liveEndpoint fakeBackend).websocketSession (webSocketScript 16000 [[0, 0]]))
      oneCommandServed :=
  ⟨rfl,
    realtime_transports_are_equivalent (liveEndpoint fakeBackend) (fun _ => rfl)
    fakeBackend_finishesFinal 16000
    [[0, 0]] (by simp) oneCommand oneCommandServed (runs_iff_run.mpr rfl) rfl (by simp [oneCommand])
    (by simp [oneCommand]) ⟨rfl, rfl, rfl⟩⟩

end ImpossibleVoice.Server
