import ImpossibleVoice.Server.SessionRuns

namespace ImpossibleVoice.Server

open Lib Grammar
open Stt (TranscriptKind)

namespace Endpoint

variable {endpoint : Endpoint} {inputs : List Input}

theorem session_of_ok {c : Connection} (h : (endpoint.websocketLoop inputs).run .start = .ok () c) :
    endpoint.websocketSession inputs = ⟨c.calls, c.frames, none⟩ := by
  rw [websocketSession, h]

/-- The connection that is left once the deadline, if it is why the loop ended,
has been reported. -/
def ended (endpoint : Endpoint) (exit : Exit) (c : Connection) : Connection :=
  if exit = .expired then endpoint.trySend (.text (endpoint.errorEvent .deadlineExceeded)) c.cancel
    else c.cancel

theorem session_of_error {exit : Exit} {c : Connection}
    (h : (endpoint.websocketLoop inputs).run .start = .error exit c) :
    endpoint.websocketSession inputs =
      ⟨(endpoint.ended exit c).calls, (endpoint.ended exit c).frames,
      if endpoint.wire (endpoint.ended exit c).sends = .failed then none
      else some (closeFrame exit c.session.failure)⟩ := by
  rw [websocketSession, h]
  rfl

theorem ended_frames {exit : Exit} (hexit : exit ≠ .expired) (c : Connection) :
    (endpoint.ended exit c).frames = c.frames := by
  rw [ended, if_neg hexit]
  rfl

theorem ended_frames_expired (c : Connection) :
    (endpoint.ended .expired c).frames = c.frames ∨
    (endpoint.ended .expired c).frames =
      c.frames ++ [.text (endpoint.errorEvent .deadlineExceeded)] := by
  rw [ended, if_pos rfl, trySend]
  split
  · exact Or.inl rfl
  · exact Or.inr rfl

end Endpoint

open Endpoint

/-- A word of the grammar, and no frame at all after a report. -/
structure WellFormed (finals : TranscriptKind → Prop) (frames : List Frame) : Prop where
  events : dataEvents frames ∈ sessions finals
  report_last : ∀ front event rest, frames = front ++ .text event :: rest →
    event.kind = .error ∨ event.kind = .cancelled → rest = []

variable {finals : TranscriptKind → Prop}

theorem not_report_of_running {frames : List Frame} (h : dataEvents frames ∈ running finals)
    (event : ServerEvent) (hmem : .text event ∈ frames) :
    event.kind ≠ .error ∧ event.kind ≠ .cancelled := by
  have hdatum : Datum.event event.kind ∈ dataEvents frames := List.mem_filterMap.mpr ⟨_, hmem, rfl⟩
  simpa using running_le_madeOf h _ hdatum

theorem WellFormed.of_running {frames : List Frame} (h : dataEvents frames ∈ running finals) :
    WellFormed finals frames := by
  refine ⟨running_le_sessions h, ?_⟩
  rintro front event rest rfl hkind
  obtain ⟨herror, hcancelled⟩ := not_report_of_running h event (by simp)
  exact absurd hkind (by simp [herror, hcancelled])

theorem WellFormed.of_report {front : List Frame} (h : dataEvents front ∈ running finals)
    {event : ServerEvent} (hkind : event.kind = .error ∨ event.kind = .cancelled) :
    WellFormed finals (front ++ [.text event]) := by
  refine ⟨?_, fun first other rest hsplit hother => ?_⟩
  · rw [dataEvents_append]
    apply snoc_last_mem_sessions h
    rcases hkind with hkind | hkind
    · exact Or.inl (by rw [hkind])
    · exact Or.inr (by rw [hkind])
  · -- an earlier report would lie in `front`, where the session still runs
    by_contra hrest
    obtain ⟨init, final, rfl⟩ := List.eq_nil_or_concat rest |>.resolve_left hrest
    have hfront : front = first ++ .text other :: init := by
      have hsplit' : front ++ [.text event] = (first ++ .text other :: init) ++ [final] := by
        simpa using hsplit
      exact (List.append_inj' hsplit' rfl).1
    obtain ⟨herror, hcancelled⟩ := not_report_of_running h other (by simp [hfront])
    exact absurd hother (by simp [herror, hcancelled])

/-- The WebSocket session emits only well-formed event sequences, as long as
`finish` keeps its contract. A socket that fails, or a deadline that passes
during a send, can also break it off within its speech. -/
theorem websocket_emits_well_formed_events (endpoint : Endpoint)
    (hfinish : endpoint.backend.FinishesWith finals) (inputs : List Input) :
    (WellFormed finals (endpoint.websocketSession inputs).frames ∨
      (∃ n, endpoint.wire n ≠ .sent) ∧
      dataEvents (endpoint.websocketSession inputs).frames ∈
      cut finals * (1 + word [.event .error])) ∧
    ∀ c, (endpoint.websocketLoop inputs).run .start = .ok () c → Between finals c := by
  have hspec := websocketLoop_spec hfinish inputs
  refine ⟨?_, fun c hrun => hspec.ok Between.start hrun⟩
  cases hrun : (endpoint.websocketLoop inputs).run .start with
  | ok u c =>
      rw [session_of_ok hrun]
      exact Or.inl (.of_running (hspec.ok Between.start hrun).running)
  | error exit c =>
      rw [session_of_error hrun]
      obtain ⟨input, _, hexit⟩ := hspec.error Between.start hrun
      cases hexit with
      | left _ hrunning | dropped _ hrunning | refused _ hrunning =>
          rw [ended_frames (by simp)]
          exact Or.inl (.of_running hrunning)
      | cancelled _ hlast hrunning =>
          rw [ended_frames (by simp), hlast]
          exact Or.inl (.of_report hrunning (Or.inr rfl))
      | reported hlast hrunning =>
          rw [ended_frames (by simp), hlast]
          exact Or.inl (.of_report hrunning (Or.inl rfl))
      | deadline _ hrunning =>
          rcases endpoint.ended_frames_expired c with hframes | hframes
          · rw [hframes]
            exact Or.inl (.of_running hrunning)
          · rw [hframes]
            exact Or.inl (.of_report hrunning (Or.inl rfl))
      | broken hwire hcut =>
          rw [ended_frames (by simp)]
          exact Or.inr ⟨⟨_, by rw [hwire]; simp⟩, le_mul_one_add _ _ hcut⟩
      | late hwire hcut =>
          refine Or.inr ⟨⟨_, by rw [hwire]; simp⟩, ?_⟩
          rcases endpoint.ended_frames_expired c with hframes | hframes
          · rw [hframes]
            exact le_mul_one_add _ _ hcut
          · rw [hframes, dataEvents_append]
            exact mul_le_mul_one_add _ _ (append_mem_mul_word hcut _)

def liveEndpoint (backend : VoiceBackend) : Endpoint := ⟨backend, 1, fun _ => .sent⟩

def dictation : List Input :=
  [.received (.text (some (.sessionStart .stt (some 16000)))),
    .received (.text (some (.audioAppend 2))),
    .received (.binary [0, 0]), .received (.text (some .audioCommit))]

theorem a_dictation_is_well_formed :
    dataEvents ((liveEndpoint fakeBackend).websocketSession dictation).frames =
      [.event .sessionReady, .event .transcriptInterim, .event .transcriptFinal,
      .event .sessionCompleted] ∧
    (WellFormed (fun kind => kind = .final)
      ((liveEndpoint fakeBackend).websocketSession dictation).frames ∨
      (∃ n, (liveEndpoint fakeBackend).wire n ≠ .sent) ∧
      dataEvents ((liveEndpoint fakeBackend).websocketSession dictation).frames ∈
      cut (fun kind => kind = .final) * (1 + word [.event .error])) ∧
    ∀ c, ((liveEndpoint fakeBackend).websocketLoop dictation).run .start = .ok () c →
    Between (fun kind => kind = .final) c :=
  ⟨rfl,
    websocket_emits_well_formed_events (liveEndpoint fakeBackend)
    fakeBackend_finishesFinal dictation⟩

/-- The type of `finish` also allows it an interim transcript, which is passed on as it is. -/
def interimBackend : VoiceBackend :=
  { fakeBackend with finish := fun _ => .ok ⟨.interim, "partial"⟩ }

theorem an_interim_finish_breaks_the_grammar :
    dataEvents
      ((liveEndpoint interimBackend).websocketSession
      [.received (.text (some (.sessionStart .stt (some 16000)))),
      .received (.text (some .audioCommit))]).frames ∉ sessions (fun kind => kind = .final) := by
  intro h
  have hevents : dataEvents ((liveEndpoint interimBackend).websocketSession
      [.received (.text (some (.sessionStart .stt (some 16000)))),
        .received (.text (some .audioCommit))]).frames =
        [.event .sessionReady, .event .transcriptInterim, .event .sessionCompleted] := rfl
  rw [hevents] at h
  obtain ⟨d, hd, kind, rfl, rfl⟩ := sessions_le_needing h (by simp)
  simp [transcriptKind] at hd

end ImpossibleVoice.Server
