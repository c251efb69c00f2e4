import ImpossibleVoice.Server.Grammar

namespace ImpossibleVoice.Server

open Lib Grammar
open Stt (Transcript TranscriptKind)
open Tts (Synthesis)
open Audio (F32)

def documentedClose : ErrorCode → Nat
  | .deadlineExceeded => 1008
  | .overloaded => 1013
  | .engineError => 1011
  | _ => 1002

structure Between (finals : TranscriptKind → Prop) (c : Connection) : Prop where
  events : dataEvents c.frames ∈ stage finals c.session.mode c.session.completed
  transcriber : c.session.transcriber =
    if c.session.mode = some .stt ∧ c.session.completed = false then some .boxed else none
  fresh : c.session.mode = none → c.session.completed = false
  pending : c.session.pendingAudio.isSome = true →
    c.session.mode = some .stt ∧ c.session.completed = false
  failure : c.session.failure = none
  worker : c.worker.isSome = true → c.session.mode = some .tts ∧ c.session.completed = false
  token : c.tokenCancelled = false

variable {finals : TranscriptKind → Prop}

theorem Between.start : Between finals .start :=
  ⟨nil_mem_madeOf _, rfl, fun _ => rfl, nofun, rfl, nofun, rfl⟩

namespace Between

variable {c s : Connection}

theorem running (h : Between finals c) : dataEvents c.frames ∈ running finals :=
  stage_le_running _ _ h.events

theorem cut (h : Between finals c) : dataEvents c.frames ∈ cut finals := stage_le_cut _ _ h.events

theorem pending_none (h : Between finals c) (hmode : c.session.mode ≠ some .stt) :
    c.session.pendingAudio = none := by
  cases hp : c.session.pendingAudio with
  | none => rfl
  | some n => exact absurd (h.pending (by rw [hp]; rfl)).1 hmode

theorem worker_none (h : Between finals c) (hmode : c.session.mode ≠ some .tts) :
    c.worker = none := by
  cases hw : c.worker with
  | none => rfl
  | some result => exact absurd (h.worker (by rw [hw]; rfl)).1 hmode

theorem sent (h : Between finals c) {frame : Frame}
    (hevents : dataEvents (c.frames ++ [frame]) ∈ stage finals c.session.mode c.session.completed) :
    Between finals (c.sent frame) :=
  ⟨hevents, h.transcriber, h.fresh, h.pending, h.failure, h.worker, h.token⟩

theorem called (h : Between finals c) (call : VoiceCall) : Between finals (c.called call) :=
  ⟨h.events, h.transcriber, h.fresh, h.pending, h.failure, h.worker, h.token⟩

theorem setPending (h : Between finals c) {pending : Option Nat}
    (hp : pending.isSome = true → c.session.mode = some .stt ∧ c.session.completed = false) :
    Between finals (c.setPending pending) :=
  ⟨h.events, h.transcriber, h.fresh, hp, h.failure, h.worker, h.token⟩

theorem setWorker (h : Between finals c)
    {worker : Option (Option (Except VoiceBackendError Synthesis))}
    (hw : worker.isSome = true → c.session.mode = some .tts ∧ c.session.completed = false) :
    Between finals (c.setWorker worker) :=
  ⟨h.events, h.transcriber, h.fresh, h.pending, h.failure, hw, h.token⟩

theorem close_code (h : Between finals c) {code : ErrorCode} (hcode : documentedClose code = 1002) :
    (Endpoint.closeFrame .failed c.session.failure).1 = documentedClose code := by
  rw [h.failure, hcode]
  rfl

end Between

def ClientLeft : Input → Prop
  | .received (.text (some .cancel)) | .received (.text (some .close)) | .received
    .close | .disconnected => True
  | _ => False

namespace Endpoint

variable (finals : TranscriptKind → Prop) (endpoint : Endpoint) (input : Input)

/-- All the ways in which one turn of a loop ends the session. -/
inductive Exits : Exit → Connection → Prop
  | left {c : Connection} (hleft : ClientLeft input) (hrun : dataEvents c.frames ∈ running finals) :
      Exits .closed c
  | cancelled {c : Connection} {front : List Frame} (hleft : ClientLeft input)
      (hlast : c.frames = front ++ [.text (endpoint.event .cancelled)])
      (hrun : dataEvents front ∈ running finals) :
      Exits .closed c
  | dropped {c : Connection} (hinput : input = .refused)
      (hrun : dataEvents c.frames ∈ running finals) : Exits .closed c
  | refused {c : Connection} (hinput : input = .refused)
      (hrun : dataEvents c.frames ∈ running finals)
      (hfailure : c.session.failure = none) : Exits .failed c
  | reported {c : Connection} {front : List Frame} {code : ErrorCode}
      (hlast : c.frames = front ++ [.text (endpoint.errorEvent code)])
      (hrun : dataEvents front ∈ running finals)
      (hclose : (closeFrame .failed c.session.failure).1 = documentedClose code) : Exits .failed c
  | deadline {c : Connection} (hinput : input = .deadline)
      (hrun : dataEvents c.frames ∈ running finals) : Exits .expired c
  | broken {c : Connection} {n : Nat} (hwire : endpoint.wire n = .failed)
      (hcut : dataEvents c.frames ∈ cut finals) :
      Exits .failed c
  | late {c : Connection} {n : Nat} {written : Bool} (hwire : endpoint.wire n = .expired written)
      (hcut : dataEvents c.frames ∈ cut finals) : Exits .expired c

variable {finals endpoint input} {c : Connection} {α : Type} {Q : α → Connection → Prop}

theorem send_spec {frame : Frame} (hcut : dataEvents c.frames ∈ cut finals)
    (hsent : dataEvents (c.sent frame).frames ∈ cut finals) :
    Triple (fun s => s = c) (endpoint.send frame) (fun _ s => s = c.sent frame)
      (Exits finals endpoint input) := by
  rw [send]
  apply at_gets
  split
  · refine Triple.modify fun s hs => ?_
    rw [hs]
  · next hwire => exact at_modify (at_throw (.broken hwire hcut))
  · next written hwire =>
      apply at_modify
      apply at_throw
      cases written with
      | false => exact .late hwire hcut
      | true => exact .late hwire hsent

theorem send_staged {frame : Frame} {mode : Option SessionMode} {completed : Bool}
    (hcut : dataEvents c.frames ∈ cut finals)
    (hsent : dataEvents (c.frames ++ [frame]) ∈ stage finals mode completed) :
    Triple (fun s => s = c) (endpoint.send frame) (fun _ s => s = c.sent frame)
      (Exits finals endpoint input) :=
  send_spec hcut (stage_le_cut _ _ hsent)

theorem last_mem_cut {front : List Frame} (hrun : dataEvents front ∈ running finals)
    {event : ServerEvent} (hkind : event.kind = .error ∨ event.kind = .cancelled) :
    dataEvents (front ++ [.text event]) ∈ cut finals := by
  rw [dataEvents_append, dataEvents_text]
  apply sessions_le_cut
  apply snoc_last_mem_sessions hrun
  rcases hkind with hkind | hkind
  · exact Or.inl (by rw [hkind])
  · exact Or.inr (by rw [hkind])

theorem running_le_cut : running finals ≤ cut finals := running_le_sessions.trans sessions_le_cut

theorem reject_spec {code : ErrorCode} (hrun : dataEvents c.frames ∈ running finals)
    (hclose : (closeFrame .failed c.session.failure).1 = documentedClose code) :
    Triple (fun s => s = c) (endpoint.reject code : Ws α) Q (Exits finals endpoint input) := by
  refine Triple.bind (send_spec (running_le_cut hrun) (last_mem_cut hrun (Or.inl rfl))) fun _ => ?_
  exact at_throw (.reported rfl hrun hclose)

theorem failBackend_spec {error : VoiceBackendError} (hrun : dataEvents c.frames ∈ running finals) :
    Triple (fun s => s = c) (endpoint.failBackend error : Ws α) Q
      (Exits finals endpoint input) := by
  apply at_modify
  refine reject_spec (c := c.fail error) hrun ?_
  cases error <;> rfl

theorem rejectIf_spec {p : Prop} [Decidable p] {code : ErrorCode}
    (hrun : dataEvents c.frames ∈ running finals)
    (hclose : (closeFrame .failed c.session.failure).1 = documentedClose code) :
    Triple (fun s => s = c) (endpoint.rejectIf p code) (fun _ s => s = c ∧ ¬ p)
      (Exits finals endpoint input) := by
  unfold rejectIf
  split
  · exact reject_spec hrun hclose
  · next hp => exact at_pure ⟨rfl, hp⟩

theorem sendAll_spec {frames : List Frame}
    (hcut : ∀ front, front <+: frames → dataEvents (c.frames ++ front) ∈ cut finals) :
    Triple (fun s => s = c) (endpoint.sendAll frames) (fun _ s => s = c.sentAll frames)
      (Exits finals endpoint input) := by
  induction frames generalizing c with
  | nil => exact at_pure c.sentAll_nil.symm
  | cons frame frames ih =>
      refine Triple.bind (send_spec ?_ (hcut [frame] (by simp))) fun _ => ?_
      · simpa using hcut [] List.nil_prefix
      · rw [Connection.sentAll_cons]
        apply ih
        intro front hfront
        have hnext := hcut (frame :: front) (List.cons_prefix_cons.mpr ⟨rfl, hfront⟩)
        rwa [Connection.sent, List.append_assoc]

theorem startTranscription_spec {rate : UInt32} :
    Triple (fun s => s = c) (endpoint.startTranscription rate)
      (fun reply s => s = c.called (.startTranscription rate reply))
      (Exits finals endpoint input) :=
  at_gets (at_modify (at_pure rfl))

theorem pushPcm16_spec {bytes : List UInt8} : Triple (fun s => s = c) (endpoint.pushPcm16 bytes)
    (fun reply s => s = c.called (.pushPcm16 bytes reply)) (Exits finals endpoint input) :=
  at_gets (at_modify (at_pure rfl))

theorem finish_spec :
    Triple (fun s => s = c) endpoint.finish
      (fun reply s => reply = endpoint.backend.finish c.calls ∧ s = c.called (.finish reply))
      (Exits finals endpoint input) :=
  at_gets (at_modify (at_pure ⟨rfl, rfl⟩))

theorem openSession_spec (h : Between finals c) (hmode : c.session.mode = none) (mode : SessionMode)
    (rate : Option UInt32) :
    Triple (fun s => s = c.setMode mode) (endpoint.openSession mode rate)
      (fun _ s => s.frames = c.frames ∧ s.worker = none ∧ s.tokenCancelled = false ∧
        s.session = ⟨some mode, none, if mode = .stt then some .boxed else none, false, none⟩)
      (Exits finals endpoint input) := by
  have hpending : c.session.pendingAudio = none := h.pending_none (by rw [hmode]; simp)
  have hworker : c.worker = none := h.worker_none (by rw [hmode]; simp)
  have hsession : (c.setMode mode).session = ⟨some mode, none, none, false, none⟩ := by
    have htranscriber := h.transcriber
    rw [hmode, if_neg (by simp)] at htranscriber
    simp only [Connection.setMode, hpending, htranscriber, h.fresh hmode, h.failure]
  have hclose {code : ErrorCode} (hcode : documentedClose code = 1002) :
      (closeFrame .failed (c.setMode mode).session.failure).1 = documentedClose code := by
    rw [hsession, hcode]
    rfl
  match mode, rate with
  | .stt, none => exact reject_spec h.running (hclose rfl)
  | .stt, some rate =>
      refine Triple.bind startTranscription_spec fun reply => ?_
      cases reply with
      | error error => exact failBackend_spec h.running
      | ok _ =>
          refine Triple.modify fun s hs => ?_
          rw [hs]
          refine ⟨rfl, hworker, h.token, ?_⟩
          simp only [Connection.setTranscriber, Connection.called, hsession]
          rfl
  | .tts, rate =>
      refine (rejectIf_spec (c := c.setMode .tts) h.running (hclose rfl)).conseq (fun _ hs => hs) ?_
        (fun _ _ hs => hs)
      rintro _ s ⟨rfl, _⟩
      exact ⟨rfl, hworker, h.token, hsession⟩

theorem onSessionStart_spec (h : Between finals c) (hmode : c.session.mode = none)
    (mode : SessionMode) (rate : Option UInt32) :
    Triple (fun s => s = c) (endpoint.onSessionStart mode rate)
      (fun done s => done = false ∧ Between finals s) (Exits finals endpoint input) := by
  apply at_modify
  refine Triple.bind (openSession_spec h hmode mode rate) fun _ => Triple.of_eq fun s hs => ?_
  obtain ⟨hframes, hworker, htoken, hsession⟩ := hs
  have hready : dataEvents (s.frames ++ [.text (endpoint.event .sessionReady)]) ∈
      stage finals (some mode) false := by
    rw [hframes, dataEvents_append]
    exact stage_ready (hmode ▸ h.events) mode
  refine Triple.bind (send_staged (hframes ▸ h.cut) hready) fun _ => at_pure ⟨rfl, ?_⟩
  refine ⟨?_, ?_, ?_, ?_, ?_, ?_, htoken⟩ <;> simp only [Connection.sent, hsession]
  · exact hready
  · cases mode <;> rfl
  · intro hcase
    cases hcase
  · intro hcase
    cases hcase
  · rw [hworker]
    intro hcase
    cases hcase

theorem transcriptKind_mixed (kind : TranscriptKind) : Mixed (.event (transcriptKind kind)) := by
  cases kind with
  | interim => exact Or.inr (Or.inl rfl)
  | final => exact Or.inr (Or.inr rfl)

theorem transcripts_mixed (endpoint : Endpoint) (updates : List Transcript) :
    ∀ d ∈ dataEvents (updates.map fun update => .text (endpoint.transcriptEvent update)),
      Mixed d := by
  intro d hd
  obtain ⟨frame, hframe, hdatum⟩ := List.mem_filterMap.mp hd
  obtain ⟨update, _, rfl⟩ := List.mem_map.mp hframe
  cases hdatum
  exact transcriptKind_mixed update.kind

theorem onAudioCommit_spec (hfinish : endpoint.backend.FinishesWith finals) (h : Between finals c)
    (hmode : c.session.mode = some .stt ∧ c.session.completed = false)
    (hidle : c.session.pendingAudio = none) :
    Triple (fun s => s = c) endpoint.onAudioCommit (fun done s => done = false ∧ Between finals s)
      (Exits finals endpoint input) := by
  have htranscriber := h.transcriber
  rw [if_pos hmode] at htranscriber
  have hevents := h.events
  rw [hmode.1, hmode.2] at hevents
  apply at_gets
  rw [htranscriber]
  apply at_modify
  refine Triple.bind finish_spec fun reply => Triple.of_eq fun s hs => ?_
  obtain ⟨hreply, rfl⟩ := hs
  cases reply with
  | error error => exact failBackend_spec h.running
  | ok update =>
      have hupdate : dataEvents (c.frames ++ [.text (endpoint.transcriptEvent update)]) ∈
          stage finals (some .stt) false := by
        rw [dataEvents_append]
        exact stage_transcripts hevents (transcripts_mixed endpoint [update])
      have hcompleted : dataEvents (c.frames ++ [.text (endpoint.transcriptEvent update)] ++
          [.text (endpoint.event .sessionCompleted)]) ∈ stage finals (some .stt) true := by
        rw [dataEvents_append, dataEvents_append]
        exact stage_completed hevents (hfinish _ _ hreply.symm)
      refine Triple.bind (send_staged h.cut hupdate) fun _ => ?_
      apply at_modify
      refine Triple.bind (send_staged (stage_le_cut _ _ hupdate) hcompleted) fun _ =>
        at_pure ⟨rfl, ?_⟩
      have hworker : c.worker = none := h.worker_none (by rw [hmode.1]; simp)
      refine ⟨?_, ?_, ?_, ?_, h.failure, ?_, h.token⟩ <;>
        simp only [Connection.sent, Connection.complete, Connection.called,
          Connection.setTranscriber, hmode.1, hidle, hworker]
      · exact hcompleted
      · rfl
      · intro hcase
        cases hcase
      · intro hcase
        cases hcase
      · intro hcase
        cases hcase

theorem sendPong_spec (h : Between finals c) :
    Triple (fun s => s = c) (endpoint.sendEvent (endpoint.event .pong))
      (fun _ s => Between finals s) (Exits finals endpoint input) := by
  have hpong : dataEvents (c.frames ++ [.text (endpoint.event .pong)]) ∈
      stage finals c.session.mode c.session.completed := by
    rw [dataEvents_append]
    exact stage_pong h.events
  refine (send_staged h.cut hpong).conseq (fun _ hs => hs) ?_ (fun _ _ hs => hs)
  rintro _ _ rfl
  exact h.sent hpong

theorem sendControlPong_spec (h : Between finals c) (payload : List UInt8) :
    Triple (fun s => s = c) (endpoint.send (.pong payload)) (fun _ s => Between finals s)
      (Exits finals endpoint input) := by
  have hpong : dataEvents (c.frames ++ [.pong payload]) ∈
      stage finals c.session.mode c.session.completed := by
    rw [dataEvents_append, dataEvents_pong, List.append_nil]
    exact h.events
  refine (send_staged h.cut hpong).conseq (fun _ hs => hs) ?_ (fun _ _ hs => hs)
  rintro _ _ rfl
  exact h.sent hpong

theorem sendCancelled_spec (hleft : ClientLeft input)
    (hrun : dataEvents c.frames ∈ running finals) :
    Triple (fun s => s = c) (endpoint.sendEvent (endpoint.event .cancelled))
      (fun _ s => Exits finals endpoint input .closed s) (Exits finals endpoint input) := by
  refine (send_spec (running_le_cut hrun) (last_mem_cut hrun (Or.inr rfl))).conseq
    (fun _ hs => hs) ?_ (fun _ _ hs => hs)
  rintro _ _ rfl
  exact .cancelled hleft rfl hrun

def Handled (finals : TranscriptKind → Prop) (endpoint : Endpoint) (input : Input) (done : Bool)
    (s : Connection) : Prop :=
  if done = true then Exits finals endpoint input .closed s else Between finals s

theorem Handled.of_continues {done : Bool} {s : Connection} (h : done = false ∧ Between finals s) :
    Handled finals endpoint input done s := by
  rw [Handled, if_neg (by simp [h.1])]
  exact h.2

theorem handleClientEvent_spec (hfinish : endpoint.backend.FinishesWith finals)
    (h : Between finals c) (hidle : c.session.pendingAudio = none) (event : ClientEvent) :
    Triple (fun s => s = c) (endpoint.handleClientEvent event)
      (Handled finals endpoint (.received (.text (some event))))
        (Exits finals endpoint (.received (.text (some event)))) := by
  have hinvalid {Q : Bool → Connection → Prop} {input : Input} :
      Triple (fun s => s = c) (endpoint.reject .invalidSequence : Ws Bool) Q
        (Exits finals endpoint input) :=
    reject_spec h.running (h.close_code rfl)
  apply at_gets
  cases event with
  | sessionStart mode rate =>
      simp only
      split
      · next hmode =>
          exact (onSessionStart_spec h hmode mode rate).conseq (fun _ hs => hs)
            (fun _ _ => Handled.of_continues) (fun _ _ hs => hs)
      · exact hinvalid
  | audioAppend bytes =>
      simp only
      split
      · next hguard =>
          apply at_modify
          apply at_pure
          exact Handled.of_continues ⟨rfl, h.setPending fun _ => ⟨hguard.1, hguard.2.1⟩⟩
      · exact hinvalid
  | audioCommit =>
      simp only
      split
      · next hguard =>
          exact (onAudioCommit_spec hfinish h hguard hidle).conseq (fun _ hs => hs)
            (fun _ _ => Handled.of_continues) (fun _ _ hs => hs)
      · exact hinvalid
  | speechGenerate text speed =>
      simp only
      split
      · next hguard =>
          refine Triple.bind (Q := fun _ s => Between finals s) ?_ fun _ => Triple.pure fun _ hs =>
            Handled.of_continues ⟨rfl, hs⟩
          apply at_gets
          apply at_modify
          refine Triple.modify fun s hs => ?_
          rw [hs]
          exact (h.called _).setWorker fun _ => hguard
      · exact hinvalid
  | cancel =>
      apply at_modify
      refine Triple.bind (sendCancelled_spec (c := c.cancel) trivial h.running) fun _ => ?_
      exact Triple.pure fun _ hs => hs
  | ping =>
      refine Triple.bind (sendPong_spec h) fun _ => ?_
      exact Triple.pure fun _ hs => Handled.of_continues ⟨rfl, hs⟩
  | close => exact at_pure (.left trivial h.running)

theorem onText_spec (hfinish : endpoint.backend.FinishesWith finals) (h : Between finals c)
    (event : Option ClientEvent) :
    Triple (fun s => s = c) (endpoint.onText event) (fun _ s => Between finals s)
      (Exits finals endpoint (.received (.text event))) := by
  apply at_gets
  refine Triple.bind (rejectIf_spec h.running (h.close_code rfl)) fun _ =>
    Triple.of_fact fun hidle => ?_
  cases event with
  | none => exact reject_spec h.running (h.close_code rfl)
  | some event =>
      refine Triple.bind
        (handleClientEvent_spec hfinish h (by simpa using hidle) event) fun done => ?_
      cases done with
      | false => exact Triple.pure fun _ hs => hs
      | true => exact fun s hs => hs

theorem onBinary_spec (h : Between finals c) (bytes : List UInt8) :
    Triple (fun s => s = c) (endpoint.onBinary bytes) (fun _ s => Between finals s)
      (Exits finals endpoint input) := by
  have hcleared : Between finals (c.setPending none) := h.setPending nofun
  apply at_gets
  apply at_modify
  cases hpending : c.session.pendingAudio with
  | none => exact reject_spec hcleared.running (hcleared.close_code rfl)
  | some expected =>
      have hmode := h.pending (by rw [hpending]; rfl)
      refine Triple.bind (rejectIf_spec hcleared.running (hcleared.close_code rfl)) fun _ =>
        Triple.of_fact fun _ => ?_
      refine Triple.bind (rejectIf_spec hcleared.running (hcleared.close_code rfl)) fun _ =>
        Triple.of_fact fun _ => ?_
      refine Triple.bind pushPcm16_spec fun reply => ?_
      cases reply with
      | error error => exact failBackend_spec hcleared.running
      | ok updates =>
          have hevents := h.events
          rw [hmode.1, hmode.2] at hevents
          have hstage (front : List Frame)
              (hfront : front <+:
              updates.map fun update => .text (endpoint.transcriptEvent update)) :
              dataEvents (c.frames ++ front) ∈ stage finals (some .stt) false := by
            rw [dataEvents_append]
            refine stage_transcripts hevents fun d hd => transcripts_mixed endpoint updates d ?_
            exact (hfront.filterMap Frame.datum).subset hd
          refine (sendAll_spec (c := (c.setPending none).called _) fun front hfront =>
            stage_le_cut _ _ (hstage front hfront)).conseq (fun _ hs => hs) ?_
            (fun _ _ hs => hs)
          rintro _ _ rfl
          refine ⟨?_, h.transcriber, h.fresh, nofun, h.failure, h.worker, h.token⟩
          simp only [Connection.sentAll, Connection.called, Connection.setPending, hmode.1, hmode.2]
          exact hstage _ (List.prefix_refl _)

theorem interrupt_spec (h : Between finals c) {code : ErrorCode}
    (hcode : documentedClose code = 1002) :
    Triple (fun s => s = c) (endpoint.interrupt code : Ws α) Q (Exits finals endpoint input) :=
  at_modify (reject_spec (c := c.cancel) h.running (h.close_code hcode))

theorem onCommand_spec (h : Between finals c) (command : ClientEvent) :
    Triple (fun s => s = c) (endpoint.onCommand command) (fun _ s => Between finals s)
      (Exits finals endpoint (.received (.text (some command)))) := by
  cases command with
  | cancel =>
      apply at_modify
      refine Triple.bind (sendCancelled_spec (c := c.cancel) trivial h.running) fun _ => ?_
      exact fun s hs => hs
  | close => exact at_modify (at_throw (.left trivial h.running))
  | ping => exact sendPong_spec h
  | sessionStart | audioAppend | audioCommit | speechGenerate => exact interrupt_spec h rfl

theorem publish_spec (h : Between finals c)
    (hmode : c.session.mode = some .tts ∧ c.session.completed = false) (hworker : c.worker = none)
    (synthesis : Synthesis) :
    Triple (fun s => s = c) (endpoint.publish synthesis) (fun _ s => Between finals s)
      (Exits finals endpoint input) := by
  have hevents := h.events
  rw [hmode.1, hmode.2] at hevents
  obtain ⟨piece, pieces, hpieces⟩ : ∃ piece pieces,
      chunks (ttsChunkBytes - 1) synthesis.pcm16 = piece :: pieces :=
    List.exists_cons_of_ne_nil (chunks_ne_nil synthesis.pcm16_ne_nil)
  have hmetadata : dataEvents (c.frames ++ [.text (endpoint.metadataEvent synthesis)]) =
      dataEvents c.frames ++ [.event .speechMetadata] := by
    rw [dataEvents_append]
    rfl
  have hcut (front : List Frame) (hfront : front <+: (piece :: pieces).map .binary) :
      dataEvents (c.frames ++ [.text (endpoint.metadataEvent synthesis)] ++ front) ∈
        cut finals := by
    obtain ⟨n, rfl⟩ : ∃ n, front = ((piece :: pieces).take n).map .binary :=
      ⟨front.length, by rw [List.map_take]; exact List.prefix_iff_eq_take.mp hfront⟩
    rw [dataEvents_append, hmetadata, dataEvents_binary]
    exact stage_metadata hevents _
  have hcompleted : dataEvents (c.frames ++ [.text (endpoint.metadataEvent synthesis)] ++
      (piece :: pieces).map .binary ++ [.text (endpoint.event .speechCompleted)]) ∈
        stage finals (some .tts) true := by
    rw [dataEvents_append, dataEvents_append, hmetadata, dataEvents_binary]
    exact stage_spoken hevents pieces.length
  apply at_gets
  rw [h.token, hpieces]
  refine Triple.bind (Q := fun _ s => s = c) (at_pure rfl) fun _ => ?_
  refine Triple.bind
    (send_spec h.cut (by simpa [Connection.sent] using hcut [] List.nil_prefix)) fun _ => ?_
  refine Triple.bind (sendAll_spec (c := c.sent _) hcut) fun _ => ?_
  apply at_modify
  refine (send_staged (hcut _ (List.prefix_refl _)) hcompleted).conseq (fun _ hs => hs) ?_
    (fun _ _ hs => hs)
  rintro _ _ rfl
  have htranscriber := h.transcriber
  have hidle := h.pending_none (by rw [hmode.1]; simp)
  rw [hmode.1, if_neg (by simp)] at htranscriber
  refine ⟨?_, ?_, ?_, ?_, h.failure, ?_, h.token⟩ <;>
    simp only [Connection.sent, Connection.sentAll, Connection.complete, hmode.1, hidle, hworker,
      htranscriber]
  · exact hcompleted
  · rfl
  · intro hcase
    cases hcase
  · intro hcase
    cases hcase
  · intro hcase
    cases hcase

theorem onWorkerDone_spec (h : Between finals c)
    {result : Option (Except VoiceBackendError Synthesis)} (hworker : c.worker = some result) :
    Triple (fun s => s = c) (endpoint.onWorkerDone result) (fun _ s => Between finals s)
      (Exits finals endpoint input) := by
  have hmode := h.worker (by rw [hworker]; rfl)
  have hdone : Between finals (c.setWorker none) := h.setWorker nofun
  apply at_modify
  cases result.getD (.error .engine) with
  | error error => exact failBackend_spec h.running
  | ok synthesis => exact publish_spec hdone hmode rfl synthesis

theorem whileSynthesizing_spec (h : Between finals c)
    {result : Option (Except VoiceBackendError Synthesis)} (hworker : c.worker = some result) :
    Triple (fun s => s = c) (endpoint.whileSynthesizing result input) (fun _ s => Between finals s)
      (Exits finals endpoint input) := by
  match input with
  | .workerDone => exact onWorkerDone_spec h hworker
  | .received (.text none) => exact interrupt_spec h rfl
  | .received (.text (some command)) => exact onCommand_spec h command
  | .received (.ping payload) => exact sendControlPong_spec h payload
  | .received (.pong _) => exact at_pure h
  | .received (.binary _) => exact interrupt_spec h rfl
  | .received .close | .disconnected => exact at_modify (at_throw (.left trivial h.running))
  | .refused => exact at_modify (at_throw (.dropped rfl h.running))
  | .deadline => exact at_throw (.deadline rfl h.running)

theorem whileReceiving_spec (hfinish : endpoint.backend.FinishesWith finals)
    (h : Between finals c) :
    Triple (fun s => s = c) (endpoint.whileReceiving input) (fun _ s => Between finals s)
      (Exits finals endpoint input) := by
  match input with
  | .received (.text event) => exact onText_spec hfinish h event
  | .received (.binary bytes) => exact onBinary_spec h bytes
  | .received (.ping payload) => exact sendControlPong_spec h payload
  | .received (.pong _) | .workerDone => exact at_pure h
  | .received .close | .disconnected => exact at_throw (.left trivial h.running)
  | .refused => exact at_throw (.refused rfl h.running h.failure)
  | .deadline => exact at_throw (.deadline rfl h.running)

theorem step_spec (hfinish : endpoint.backend.FinishesWith finals) (input : Input) :
    Triple (Between finals) (endpoint.step input) (fun _ s => Between finals s)
      (Exits finals endpoint input) := by
  apply Triple.of_eq
  intro c h
  apply at_gets
  cases hworker : c.worker with
  | none => exact whileReceiving_spec hfinish h
  | some result => exact whileSynthesizing_spec h hworker

theorem websocketLoop_spec (hfinish : endpoint.backend.FinishesWith finals) (inputs : List Input) :
    Triple (Between finals) (endpoint.websocketLoop inputs) (fun _ s => Between finals s)
      (fun exit s => ∃ input ∈ inputs, Exits finals endpoint input exit s) := by
  induction inputs with
  | nil => exact Triple.pure fun _ hs => hs
  | cons input inputs ih =>
      refine Triple.bind ((step_spec hfinish input).conseq (fun _ hs => hs) (fun _ _ hs => hs)
        fun _ _ hs => ⟨input, List.mem_cons_self, hs⟩) fun _ => ?_
      refine ih.conseq (fun _ hs => hs) (fun _ _ hs => hs) ?_
      rintro _ _ ⟨input, hinput, hs⟩
      exact ⟨input, List.mem_cons_of_mem _ hinput, hs⟩

end Endpoint

end ImpossibleVoice.Server
