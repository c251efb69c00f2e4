import ImpossibleVoice.Server.WebSocket

namespace ImpossibleVoice.Server

open Lib
open Stt (Transcript)
open Tts (Synthesis)
open Audio (F32)

structure Core where
  session : SessionState
  worker : Option (Option (Except VoiceBackendError Synthesis))
  calls : List VoiceCall

def Connection.core (c : Connection) : Core := ⟨c.session, c.worker, c.calls⟩

def Input.Control : Input → Prop
  | .received (.ping _) | .received (.pong _) | .workerDone => True
  | _ => False

def Core.InStt (core : Core) : Prop :=
  core.session.mode = some .stt ∧ core.session.completed = false

instance (core : Core) : Decidable core.InStt := inferInstanceAs (Decidable (_ ∧ _))

namespace Endpoint

variable (endpoint : Endpoint)

def callOfStart (core : Core) (mode : SessionMode) (rate : Option UInt32) : Option VoiceCall :=
  match mode, rate with
  | .stt, some rate =>
      if core.session.mode = none then
        some (.startTranscription rate (endpoint.backend.startTranscription core.calls rate))
      else none
  | .stt, none | .tts, _ => none

def callOfEvent (core : Core) (event : ClientEvent) : Option VoiceCall :=
  match event with
  | .sessionStart mode rate => endpoint.callOfStart core mode rate
  | .audioCommit =>
      if core.InStt ∧ core.session.transcriber ≠ none then
        some (.finish (endpoint.backend.finish core.calls)) else none
  | .speechGenerate text speed =>
      if core.session.mode = some .tts ∧ core.session.completed = false then
        some (.synthesize text speed (endpoint.backend.synthesize core.calls text speed))
      else none
  | .audioAppend _ | .cancel | .ping | .close => none

def callOf (core : Core) (input : Input) : Option VoiceCall :=
  if core.worker.isSome = true then none else
  match input with
  | .received (.text (some event)) =>
      if core.session.pendingAudio.isSome = true then none else endpoint.callOfEvent core event
  | .received (.binary bytes) =>
      if core.session.pendingAudio = some bytes.length ∧ bytes.length ≤ maxWsMessageBytes ∧
          core.session.transcriber ≠ none then
        some (.pushPcm16 bytes (endpoint.backend.pushPcm16 core.calls bytes))
      else none
  | _ => none

inductive Calls (core : Core) : Input → VoiceCall → Prop
  | start {rate : UInt32} {reply : Except VoiceBackendError Unit}
      (hmode : core.session.mode = none) :
      Calls core (.received (.text (some (.sessionStart .stt (some rate)))))
        (.startTranscription rate reply)
  | push {bytes : List UInt8} {reply : Except VoiceBackendError (List Transcript)}
      (hpending : core.session.pendingAudio = some bytes.length)
      (htranscriber : core.session.transcriber ≠ none) :
      Calls core (.received (.binary bytes)) (.pushPcm16 bytes reply)
  | finish {reply : Except VoiceBackendError Transcript} (hstt : core.InStt) :
      Calls core (.received (.text (some .audioCommit))) (.finish reply)
  | speak {text : String} {speed : F32} {reply : Option (Except VoiceBackendError Synthesis)}
      (hmode : core.session.mode = some .tts) (hcompleted : core.session.completed = false) :
      Calls core (.received (.text (some (.speechGenerate text speed))))
        (.synthesize text speed reply)

inductive Turn (core : Core) : Input → Core → Prop
  | control {input : Input} (hcontrol : input.Control)
      (hworker : input = .workerDone → core.worker = none) :
      Turn core input core
  | ping (hpending : core.worker = none → core.session.pendingAudio = none) :
      Turn core (.received (.text (some .ping))) core
  | startStt {rate : UInt32} (hworker : core.worker = none)
      (hpending : core.session.pendingAudio = none)
      (hmode : core.session.mode = none)
      (hreply : endpoint.backend.startTranscription core.calls rate = .ok ()) :
      Turn core (.received (.text (some (.sessionStart .stt (some rate)))))
        ⟨{ core.session with mode := some .stt, transcriber := some .boxed }, none,
          core.calls ++ [.startTranscription rate (.ok ())]⟩
  | startTts (hworker : core.worker = none) (hpending : core.session.pendingAudio = none)
      (hmode : core.session.mode = none) :
      Turn core (.received (.text (some (.sessionStart .tts none))))
        ⟨{ core.session with mode := some .tts }, none, core.calls⟩
  | declare {n : Nat} (hworker : core.worker = none) (hpending : core.session.pendingAudio = none)
      (hstt : core.InStt)
      (hpos : 0 < n) (hmax : n ≤ maxWsMessageBytes) :
      Turn core (.received (.text (some (.audioAppend n))))
        ⟨{ core.session with pendingAudio := some n }, none, core.calls⟩
  | commit {update : Transcript} (hworker : core.worker = none)
      (hpending : core.session.pendingAudio = none)
      (hstt : core.InStt) (htranscriber : core.session.transcriber ≠ none)
      (hreply : endpoint.backend.finish core.calls = .ok update) :
      Turn core (.received (.text (some .audioCommit)))
        ⟨{ core.session with transcriber := none, completed := true }, none,
          core.calls ++ [.finish (.ok update)]⟩
  | speak {text : String} {speed : F32} {reply : Option (Except VoiceBackendError Synthesis)}
      (hworker : core.worker = none) (hpending : core.session.pendingAudio = none)
      (hmode : core.session.mode = some .tts) (hcompleted : core.session.completed = false)
      (hreply : endpoint.backend.synthesize core.calls text speed = reply) :
      Turn core (.received (.text (some (.speechGenerate text speed))))
        ⟨core.session, some reply, core.calls ++ [.synthesize text speed reply]⟩
  | spoken {synthesis : Synthesis} (hworker : core.worker = some (some (.ok synthesis))) :
      Turn core .workerDone ⟨{ core.session with completed := true }, none, core.calls⟩
  | push {bytes : List UInt8} {updates : List Transcript} (hworker : core.worker = none)
      (hpending : core.session.pendingAudio = some bytes.length)
      (hmax : bytes.length ≤ maxWsMessageBytes)
      (htranscriber : core.session.transcriber ≠ none)
      (hreply : endpoint.backend.pushPcm16 core.calls bytes = .ok updates) :
      Turn core (.received (.binary bytes))
        ⟨{ core.session with pendingAudio := none }, none,
          core.calls ++ [.pushPcm16 bytes (.ok updates)]⟩

def Ended (calls : List VoiceCall) (_ : Exit) (c : Connection) : Prop := c.calls = calls

variable {endpoint}

theorem calls_of_callOfEvent {core : Core} {event : ClientEvent} {call : VoiceCall}
    (h : endpoint.callOfEvent core event = some call) :
    Calls core (.received (.text (some event))) call := by
  cases event with
  | sessionStart mode rate =>
      match mode, rate with
      | .stt, some rate =>
          simp only [callOfEvent, callOfStart] at h
          split at h
          · next hmode =>
              cases h
              exact .start hmode
          · cases h
      | .stt, none | .tts, _ => cases h
  | audioCommit =>
      simp only [callOfEvent] at h
      split at h
      · next hguard =>
          cases h
          exact .finish hguard.1
      · cases h
  | speechGenerate text speed =>
      simp only [callOfEvent] at h
      split at h
      · next hguard =>
          cases h
          exact .speak hguard.1 hguard.2
      · cases h
  | audioAppend | cancel | ping | close => cases h

theorem calls_of_callOf {core : Core} {input : Input} {call : VoiceCall}
    (h : endpoint.callOf core input = some call) : core.worker = none ∧ Calls core input call := by
  unfold callOf at h
  split at h
  · cases h
  · next hworker =>
      refine ⟨by simpa using hworker, ?_⟩
      split at h
      · split at h
        · cases h
        · exact calls_of_callOfEvent h
      · split at h
        · next hguard =>
            cases h
            exact .push hguard.1 hguard.2.2
        · cases h
      · cases h

variable {core : Core} {α : Type} {Q : α → Connection → Prop}

theorem ended_of_core {c : Connection} (h : c.core = core) (exit : Exit) :
    Ended core.calls exit c := by
  rw [← h]
  rfl

theorem send_keeps (frame : Frame) :
    Triple (fun c => c.core = core) (endpoint.send frame) (fun _ c => c.core = core)
      (Ended core.calls) := by
  refine Triple.of_eq fun c hc => ?_
  apply at_gets
  split
  · refine Triple.modify ?_
    rintro _ rfl
    exact hc
  · exact at_modify (at_throw (ended_of_core hc .failed))
  · next written _ =>
      apply at_modify
      apply at_throw
      apply ended_of_core
      cases written with
      | false => exact hc
      | true => exact hc

theorem reject_keeps (code : ErrorCode) :
    Triple (fun c => c.core = core) (endpoint.reject code : Ws α) Q (Ended core.calls) := by
  refine Triple.bind (send_keeps _) fun _ => ?_
  exact fun c hc => ended_of_core hc .failed

theorem rejectIf_keeps (p : Prop) [Decidable p] (code : ErrorCode) :
    Triple (fun c => c.core = core) (endpoint.rejectIf p code) (fun _ c => c.core = core ∧ ¬ p)
      (Ended core.calls) := by
  rw [rejectIf]
  split
  · exact reject_keeps code
  · next hp => exact Triple.pure fun c hc => ⟨hc, hp⟩

theorem failBackend_keeps (error : VoiceBackendError) :
    Triple (fun c => c.core = core) (endpoint.failBackend error : Ws α) Q (Ended core.calls) := by
  refine Triple.bind
    (Q := fun _ c => c.core =
      ⟨{ core.session with failure := some error }, core.worker, core.calls⟩)
    (Triple.modify fun c hc => ?_) fun _ => reject_keeps _
  rw [← hc]
  rfl

theorem sendAll_keeps (frames : List Frame) :
    Triple (fun c => c.core = core) (endpoint.sendAll frames) (fun _ c => c.core = core)
      (Ended core.calls) := by
  induction frames with
  | nil => exact Triple.pure fun c hc => hc
  | cons frame frames ih => exact Triple.bind (send_keeps frame) fun _ => ih

theorem modify_core {f : Connection → Connection} (next : Core) {rest : Ws α}
    {E : Exit → Connection → Prop} (hf : ∀ c, c.core = core → (f c).core = next)
    (h : Triple (fun c => c.core = next) rest Q E) :
    Triple (fun c => c.core = core) (modify f >>= fun _ => rest) Q E :=
  Triple.bind (Triple.modify hf) fun _ => h

theorem gets_session {rest : SessionState → Ws α} {E : Exit → Connection → Prop}
    (h : Triple (fun c => c.core = core) (rest core.session) Q E) :
    Triple (fun c => c.core = core) (gets Connection.session >>= rest) Q E := by
  rintro c rfl
  exact h c rfl

variable (endpoint) in
abbrev Takes (core : Core) (input : Input) (m : Ws Unit) : Prop :=
  Triple (fun c => c.core = core) m (fun _ c => endpoint.Turn core input c.core)
    (Ended (core.calls ++ (endpoint.callOf core input).toList))

variable {input : Input}

theorem reject_takes (core next : Core) (hcall : endpoint.callOf core input = none)
    (hnext : next.calls = core.calls) (code : ErrorCode) :
    Triple (fun c => c.core = next) (endpoint.reject code : Ws α) Q
      (Ended (core.calls ++ (endpoint.callOf core input).toList)) := by
  rw [hcall, Option.toList_none, List.append_nil, ← hnext]
  exact reject_keeps code

theorem reject_bind_takes {β : Type} (core next : Core) (hcall : endpoint.callOf core input = none)
    (hnext : next.calls = core.calls) (code : ErrorCode) (rest : β → Ws α) :
    Triple (fun c => c.core = next) (endpoint.reject code >>= rest) Q
      (Ended (core.calls ++ (endpoint.callOf core input).toList)) :=
  Triple.bind (Q := fun _ _ => False) (reject_takes core next hcall hnext code)
    fun _ _ hc => hc.elim

theorem send_takes (hcall : endpoint.callOf core input = none)
    (hturn : endpoint.Turn core input core) (frame : Frame) :
    endpoint.Takes core input (endpoint.send frame) := by
  rw [Takes, hcall, Option.toList_none, List.append_nil]
  refine (send_keeps frame).conseq (fun _ hc => hc) ?_ fun _ _ hc => hc
  rintro _ c rfl
  exact hturn

theorem startTranscription_core (rate : UInt32) {E : Exit → Connection → Prop} :
    Triple (fun c => c.core = core) (endpoint.startTranscription rate)
      (fun reply c => c.core =
      { core with calls := core.calls ++ [.startTranscription rate reply] } ∧
      endpoint.backend.startTranscription core.calls rate = reply) E := by
  rintro c rfl
  exact ⟨rfl, rfl⟩

theorem pushPcm16_core (bytes : List UInt8) {E : Exit → Connection → Prop} :
    Triple (fun c => c.core = core) (endpoint.pushPcm16 bytes)
      (fun reply c => c.core = { core with calls := core.calls ++ [.pushPcm16 bytes reply] } ∧
        endpoint.backend.pushPcm16 core.calls bytes = reply) E := by
  rintro c rfl
  exact ⟨rfl, rfl⟩

theorem finish_core {E : Exit → Connection → Prop} :
    Triple (fun c => c.core = core) endpoint.finish
      (fun reply c => c.core = { core with calls := core.calls ++ [.finish reply] } ∧
        endpoint.backend.finish core.calls = reply) E := by
  rintro c rfl
  exact ⟨rfl, rfl⟩

variable (endpoint core input) in
abbrev Answers (m : Ws Bool) : Prop :=
  Triple (fun c => c.core = core) m
    (fun done c => if done = true then
      Ended (core.calls ++ (endpoint.callOf core input).toList) .closed c
      else endpoint.Turn core input c.core)
    (Ended (core.calls ++ (endpoint.callOf core input).toList))

theorem startStt_answers (hworker : core.worker = none)
    (hpending : core.session.pendingAudio = none) (hmode : core.session.mode = none)
    (rate : UInt32) :
    endpoint.Answers core (.received (.text (some (.sessionStart .stt (some rate)))))
      (endpoint.onSessionStart .stt (some rate)) := by
  have hcall : endpoint.callOf core (.received (.text (some (.sessionStart .stt (some rate))))) =
      some (.startTranscription rate (endpoint.backend.startTranscription core.calls rate)) := by
    simp [callOf, callOfEvent, callOfStart, hworker, hpending, hmode]
  rw [Answers, hcall]
  refine modify_core ({ core with session := { core.session with mode := some .stt } }) ?_ ?_
  · rintro c rfl
    rfl
  refine Triple.bind
    (Q := fun _ c => c.core =
      ⟨{ core.session with mode := some .stt, transcriber := some .boxed }, none,
      core.calls ++ [.startTranscription rate (.ok ())]⟩ ∧
        endpoint.backend.startTranscription core.calls rate = .ok ()) ?_
    fun _ => Triple.of_fact fun hreply => ?_
  · refine Triple.bind (startTranscription_core rate) fun reply => Triple.of_fact fun hreply => ?_
    rw [hreply]
    cases reply with
    | ok reply =>
        refine Triple.modify fun c hc => ⟨?_, rfl⟩
        obtain ⟨hsession, hw, hcalls⟩ := Core.mk.inj hc
        simp only [Connection.core, Connection.setTranscriber, hsession, hw, hcalls, hworker]
    | error error => exact failBackend_keeps error
  · rw [hreply]
    refine Triple.bind (send_keeps _) fun _ => Triple.pure fun c hc => ?_
    rw [hc]
    exact .startStt hworker hpending hmode hreply

theorem startTts_answers (hworker : core.worker = none)
    (hpending : core.session.pendingAudio = none) (hmode : core.session.mode = none) :
    endpoint.Answers core (.received (.text (some (.sessionStart .tts none))))
      (endpoint.onSessionStart .tts none) := by
  have hcall : endpoint.callOf core (.received (.text (some (.sessionStart .tts none)))) =
      none := by
    simp [callOf, callOfEvent, callOfStart]
  rw [Answers, hcall, Option.toList_none, List.append_nil]
  refine modify_core (⟨{ core.session with mode := some .tts }, none, core.calls⟩) ?_ ?_
  · rintro c rfl
    rw [← hworker]
    rfl
  refine Triple.bind (rejectIf_keeps _ _) fun _ => Triple.of_fact fun _ => ?_
  refine Triple.bind (send_keeps _) fun _ => Triple.pure fun c hc => ?_
  rw [hc]
  exact .startTts hworker hpending hmode

theorem onSessionStart_answers (hworker : core.worker = none)
    (hpending : core.session.pendingAudio = none) (hmode : core.session.mode = none)
    (mode : SessionMode) (rate : Option UInt32) :
    endpoint.Answers core (.received (.text (some (.sessionStart mode rate))))
      (endpoint.onSessionStart mode rate) := by
  match mode, rate with
  | .stt, some rate => exact startStt_answers hworker hpending hmode rate
  | .tts, none => exact startTts_answers hworker hpending hmode
  | .stt, none =>
      refine modify_core ({ core with session := { core.session with mode := some .stt } }) ?_ ?_
      · rintro c rfl
        rfl
      · refine reject_bind_takes core _ ?_ (by rfl) _ _
        simp [callOf, callOfEvent, callOfStart]
  | .tts, some rate =>
      refine modify_core ({ core with session := { core.session with mode := some .tts } }) ?_ ?_
      · rintro c rfl
        rfl
      · refine reject_bind_takes core _ ?_ (by rfl) _ _
        simp [callOf, callOfEvent, callOfStart]

theorem onAudioCommit_answers (hworker : core.worker = none)
    (hpending : core.session.pendingAudio = none) (hstt : core.InStt) :
    endpoint.Answers core (.received (.text (some .audioCommit))) endpoint.onAudioCommit := by
  rw [Answers, onAudioCommit]
  apply gets_session
  cases htranscriber : core.session.transcriber with
  | none =>
      refine reject_takes core _ ?_ (by rfl) _
      simp [callOf, callOfEvent, htranscriber]
  | some transcriber =>
      have hcall : endpoint.callOf core (.received (.text (some .audioCommit))) =
          some (.finish (endpoint.backend.finish core.calls)) := by
        simp [callOf, callOfEvent, hworker, hpending, htranscriber, hstt]
      rw [hcall]
      refine modify_core (⟨{ core.session with transcriber := none }, none, core.calls⟩) ?_ ?_
      · rintro c rfl
        rw [← hworker]
        rfl
      refine Triple.bind finish_core fun reply => Triple.of_fact fun hreply => ?_
      rw [hreply]
      cases reply with
      | error error => exact failBackend_keeps error
      | ok update =>
          refine Triple.bind (send_keeps _) fun _ => ?_
          refine modify_core (⟨{ core.session with transcriber := none, completed := true }, none,
            core.calls ++ [.finish (.ok update)]⟩) ?_ ?_
          · intro c hc
            obtain ⟨hsession, hw, hcalls⟩ := Core.mk.inj hc
            simp only [Connection.core, Connection.complete, hsession, hw, hcalls]
          · refine Triple.bind (send_keeps _) fun _ => Triple.pure fun c hc => ?_
            rw [hc]
            exact .commit hworker hpending hstt (by simp [htranscriber]) hreply

theorem handleClientEvent_answers (hworker : core.worker = none)
    (hpending : core.session.pendingAudio = none) (event : ClientEvent) :
    endpoint.Answers core (.received (.text (some event))) (endpoint.handleClientEvent event) := by
  rw [Answers, handleClientEvent]
  apply gets_session
  cases event with
  | sessionStart mode rate =>
      simp only
      split
      · next hmode => exact onSessionStart_answers hworker hpending hmode mode rate
      · next hmode =>
          refine reject_takes core _ ?_ (by rfl) _
          cases mode <;> cases rate <;> simp [callOf, callOfEvent, callOfStart, hmode]
  | audioAppend n =>
      simp only
      split
      · next hguard =>
          refine modify_core
            (⟨{ core.session with pendingAudio := some n }, none, core.calls⟩) ?_ ?_
          · rintro c rfl
            rw [← hworker]
            rfl
          · refine Triple.pure fun c hc => ?_
            rw [hc]
            exact .declare hworker hpending ⟨hguard.1, hguard.2.1⟩ hguard.2.2.1 hguard.2.2.2
      · refine reject_takes core _ ?_ (by rfl) _
        simp [callOf, callOfEvent]
  | audioCommit =>
      simp only
      split
      · next hstt => exact onAudioCommit_answers hworker hpending hstt
      · next hstt =>
          refine reject_takes core _ ?_ (by rfl) _
          simp [callOf, callOfEvent, Core.InStt, hstt]
  | speechGenerate text speed =>
      simp only
      split
      · next hguard =>
          refine Triple.bind
            (Q := fun _ c => c.core =
              ⟨core.session, some (endpoint.backend.synthesize core.calls text speed),
              core.calls ++
                [.synthesize text speed (endpoint.backend.synthesize core.calls text speed)]⟩) ?_
              fun _ => ?_
          · rintro c rfl
            rfl
          · refine Triple.pure fun c hc => ?_
            rw [hc]
            exact .speak hworker hpending hguard.1 hguard.2 rfl
      · next hguard =>
          refine reject_takes core _ ?_ (by rfl) _
          simp [callOf, callOfEvent, hguard]
  | cancel =>
      have hcall : endpoint.callOf core (.received (.text (some .cancel))) = none := by
        simp [callOf, callOfEvent]
      rw [hcall, Option.toList_none, List.append_nil]
      refine modify_core (core) (fun c hc => hc) ?_
      exact Triple.bind (send_keeps _) fun _ => Triple.pure fun c hc => ended_of_core hc .closed
  | ping =>
      have hcall : endpoint.callOf core (.received (.text (some .ping))) = none := by
        simp [callOf, callOfEvent]
      rw [hcall, Option.toList_none, List.append_nil]
      refine Triple.bind (send_keeps _) fun _ => Triple.pure fun c hc => ?_
      rw [hc]
      exact .ping fun _ => hpending
  | close =>
      have hcall : endpoint.callOf core (.received (.text (some .close))) = none := by
        simp [callOf, callOfEvent]
      rw [hcall, Option.toList_none, List.append_nil]
      exact Triple.pure fun c hc => ended_of_core hc .closed

theorem onText_takes (hworker : core.worker = none) (event : Option ClientEvent) :
    endpoint.Takes core (.received (.text event)) (endpoint.onText event) := by
  apply gets_session
  by_cases hpending : core.session.pendingAudio = none
  · rw [hpending]
    refine Triple.bind (Q := fun _ c => c.core = core) (Triple.pure fun _ hc => hc) fun _ => ?_
    cases event with
    | none =>
        refine reject_takes core _ ?_ (by rfl) _
        simp [callOf]
    | some event =>
        refine Triple.bind (handleClientEvent_answers hworker hpending event) fun done => ?_
        cases done with
        | false => exact Triple.pure fun _ hc => hc
        | true => exact fun c hc => hc
  · have hsome : core.session.pendingAudio.isSome = true := Option.isSome_iff_ne_none.mpr hpending
    have hcall : endpoint.callOf core (.received (.text event)) = none := by
      cases event <;> simp [callOf, hsome]
    simp only [rejectIf, if_pos hsome]
    exact reject_bind_takes core _ hcall (by rfl) _ _

theorem onBinary_takes (hworker : core.worker = none) (bytes : List UInt8) :
    endpoint.Takes core (.received (.binary bytes)) (endpoint.onBinary bytes) := by
  apply gets_session
  refine modify_core (⟨{ core.session with pendingAudio := none }, none, core.calls⟩) ?_ ?_
  · rintro c rfl
    rw [← hworker]
    rfl
  cases hpending : core.session.pendingAudio with
  | none =>
      refine reject_takes core _ ?_ (by rfl) _
      simp [callOf, hpending]
  | some expected =>
      simp only
      by_cases hlength : bytes.length ≠ expected ∨ maxWsMessageBytes < expected
      · rw [rejectIf, if_pos hlength]
        refine reject_bind_takes core _ ?_ (by rfl) _ _
        simp only [callOf, hpending, Option.some.injEq]
        grind
      rw [rejectIf, if_neg hlength]
      have hexpected : expected = bytes.length := by omega
      have hmax : bytes.length ≤ maxWsMessageBytes := by omega
      refine Triple.bind
        (Q := fun _ c => c.core = ⟨{ core.session with pendingAudio := none }, none, core.calls⟩)
        (Triple.pure fun _ hc => hc) fun _ => ?_
      by_cases htranscriber : core.session.transcriber = none
      · rw [rejectIf, if_pos htranscriber]
        refine reject_bind_takes core _ ?_ (by rfl) _ _
        simp [callOf, htranscriber]
      rw [rejectIf, if_neg htranscriber]
      have hcall : endpoint.callOf core (.received (.binary bytes)) =
          some (.pushPcm16 bytes (endpoint.backend.pushPcm16 core.calls bytes)) := by
        simp [callOf, hworker, hpending, hexpected, htranscriber, hmax]
      rw [hcall]
      refine Triple.bind
        (Q := fun _ c => c.core = ⟨{ core.session with pendingAudio := none }, none, core.calls⟩)
        (Triple.pure fun _ hc => hc) fun _ => ?_
      refine Triple.bind (pushPcm16_core bytes) fun reply => Triple.of_fact fun hreply => ?_
      rw [hreply]
      cases reply with
      | error error => exact failBackend_keeps error
      | ok updates =>
          refine (sendAll_keeps _).conseq (fun _ hc => hc) ?_ fun _ _ hc => hc
          intro _ c hc
          rw [hc]
          exact .push hworker (hexpected ▸ hpending) hmax htranscriber hreply

theorem interrupt_takes (hcall : endpoint.callOf core input = none) (code : ErrorCode) :
    endpoint.Takes core input (endpoint.interrupt code) :=
  modify_core core (fun _ hc => hc) (reject_takes core _ hcall (by rfl) code)

theorem throw_takes (hcall : endpoint.callOf core input = none) (exit : Exit) :
    endpoint.Takes core input (throw exit) := by
  rw [Takes, hcall, Option.toList_none, List.append_nil]
  exact fun c hc => ended_of_core hc exit

theorem publish_takes {synthesis : Synthesis}
    (hworker : core.worker = some (some (.ok synthesis))) :
    Triple (fun c => c.core = { core with worker := none }) (endpoint.publish synthesis)
      (fun _ c => endpoint.Turn core .workerDone c.core) (Ended core.calls) := by
  refine Triple.bind (Q := fun _ c => c.core = { core with worker := none })
    (Triple.gets fun _ hc => hc) fun cancelled => ?_
  refine Triple.bind ((Triple.failIf fun c hc _ => ended_of_core hc .closed).conseq
    (fun _ hc => hc) (fun _ _ hc => hc.1) fun _ _ hc => hc) fun _ => ?_
  refine Triple.bind (send_keeps _) fun _ => ?_
  refine Triple.bind (sendAll_keeps _) fun _ => ?_
  refine modify_core (⟨{ core.session with completed := true }, none, core.calls⟩) ?_ ?_
  · intro c hc
    obtain ⟨hsession, hw, hcalls⟩ := Core.mk.inj hc
    simp only [Connection.core, Connection.complete, hsession, hw, hcalls]
  · refine (send_keeps _).conseq (fun _ hc => hc) ?_ fun _ _ hc => hc
    intro _ c hc
    rw [hc]
    exact .spoken hworker

theorem whileSynthesizing_takes {result : Option (Except VoiceBackendError Synthesis)}
    (hworker : core.worker = some result) (input : Input) :
    endpoint.Takes core input (endpoint.whileSynthesizing result input) := by
  have hcall : endpoint.callOf core input = none := by
    simp [callOf, hworker]
  match input with
  | .received (.text none) | .received (.binary _) => exact interrupt_takes hcall _
  | .received (.text (some command)) =>
      cases command with
      | cancel =>
          refine modify_core (core) (fun _ hc => hc) ?_
          rw [hcall, Option.toList_none, List.append_nil]
          exact Triple.bind (send_keeps _) fun _ c hc => ended_of_core hc .closed
      | close => exact modify_core core (fun _ hc => hc) (throw_takes hcall _)
      | ping => exact send_takes hcall (.ping fun hnone => absurd hnone (by simp [hworker])) _
      | sessionStart | audioAppend | audioCommit | speechGenerate => exact interrupt_takes hcall _
  | .received (.ping payload) =>
      exact send_takes hcall (.control (by trivial) fun h => by cases h) _
  | .received (.pong _) =>
      refine Triple.pure ?_
      rintro _ rfl
      exact .control trivial fun h => by cases h
  | .received .close | .refused | .disconnected =>
      exact modify_core core (fun _ hc => hc) (throw_takes hcall _)
  | .deadline => exact throw_takes hcall _
  | .workerDone =>
      rw [Takes, hcall, Option.toList_none, List.append_nil]
      refine modify_core ({ core with worker := none }) ?_ ?_
      · rintro c rfl
        rfl
      match result with
      | some (.ok synthesis) => exact publish_takes hworker
      | none | some (.error error) => exact failBackend_keeps _

theorem whileReceiving_takes (hworker : core.worker = none) (input : Input) :
    endpoint.Takes core input (endpoint.whileReceiving input) := by
  match input with
  | .received (.text event) => exact onText_takes hworker event
  | .received (.binary bytes) => exact onBinary_takes hworker bytes
  | .received (.ping payload) => 
      refine send_takes ?_ (.control (by trivial) fun _ => hworker) _
      simp [callOf]
  | .received (.pong _) | .workerDone =>
      refine Triple.pure ?_
      rintro _ rfl
      exact .control trivial fun _ => hworker
  | .received .close | .refused | .disconnected | .deadline =>
      exact throw_takes (by simp [callOf]) _

theorem step_takes (core : Core) (input : Input) :
    endpoint.Takes core input (endpoint.step input) := by
  rintro c rfl
  have hcore : ∀ d, d = c → d.core = c.core := fun _ hd => hd ▸ rfl
  refine at_gets ?_ c rfl
  cases hworker : c.worker with
  | none =>
      exact (whileReceiving_takes hworker input).conseq hcore (fun _ _ hc => hc) fun _ _ hc => hc
  | some result =>
      exact (whileSynthesizing_takes hworker input).conseq hcore (fun _ _ hc => hc) fun _ _ hc => hc

end Endpoint

end ImpossibleVoice.Server
