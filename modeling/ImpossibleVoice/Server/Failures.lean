import ImpossibleVoice.Server.EventOrder

namespace ImpossibleVoice.Server

open Lib Grammar Endpoint

/-- A session that ended with `last` either reports an error with its documented
close code, or was ended by the client and reports nothing. -/
def Reported (last : Input) (t : Transmission) : Prop :=
  (∃ front event code, t.frames = front ++ [.text event] ∧ event.kind = .error ∧
    event.code = some code ∧
    t.close.map Prod.fst = some (documentedClose code)) ∨
  (t.close.map Prod.fst = some 1000 ∧ ClientLeft last ∧ ∀ event, .text event ∈ t.frames →
    event.kind ≠ .error)

variable {endpoint : Endpoint} {inputs : List Input}

theorem not_clientLeft_refused : ¬ ClientLeft .refused := fun h => h

theorem not_reported_of_running (finals : Stt.TranscriptKind → Prop) {last : Input}
    {t : Transmission} (hrun : dataEvents t.frames ∈ running finals) (hleft : ¬ ClientLeft last) :
    ¬ Reported last t := by
  rintro (⟨front, event, code, hframes, hkind, _⟩ | ⟨_, hclient, _⟩)
  · exact (not_report_of_running hrun event (by simp [hframes])).1 hkind
  · exact hleft hclient

namespace Endpoint

theorem run_websocketLoop_append {c : Connection}
    (h : (endpoint.websocketLoop inputs).run .start = .ok () c) (last : Input) :
    (endpoint.websocketLoop (inputs ++ [last])).run .start = (endpoint.step last).run c := by
  generalize Connection.start = s at h ⊢
  induction inputs generalizing s with
  | nil =>
      cases h
      rw [List.nil_append, websocketLoop, EStateM.run_bind]
      cases (endpoint.step last).run c <;> rfl
  | cons input inputs ih =>
      obtain ⟨_, t, hstep, hrest⟩ := run_bind_ok h
      rw [List.cons_append, websocketLoop, run_bind_of_ok hstep]
      exact ih t hrest

/-- A session is open exactly as long as its loop runs. -/
theorem close_eq_none (halive : ∀ n, endpoint.wire n ≠ .failed) :
    (endpoint.websocketSession inputs).close = none ↔
      ∃ c, (endpoint.websocketLoop inputs).run .start = .ok () c := by
  cases hrun : (endpoint.websocketLoop inputs).run .start with
  | ok u c =>
      rw [session_of_ok hrun]
      simp
  | error exit c =>
      rw [session_of_error hrun, if_neg (halive _)]
      simp

theorem ended_expired (halive : ∀ n, endpoint.wire n ≠ .failed) (c : Connection) :
    (endpoint.ended .expired c).frames =
      c.frames ++ [.text (endpoint.errorEvent .deadlineExceeded)] := by
  rw [ended, if_pos rfl, trySend, if_neg (halive _)]
  rfl

theorem reported_of_exits {finals : Stt.TranscriptKind → Prop} {last : Input} {exit : Exit}
    {c : Connection} (halive : ∀ n, endpoint.wire n ≠ .failed) (hlast : last ≠ .refused)
    (h : Exits finals endpoint last exit c) (calls : List VoiceCall) :
    Reported last
      ⟨calls, (endpoint.ended exit c).frames, some (closeFrame exit c.session.failure)⟩ := by
  cases h with
  | left hleft hrun =>
      rw [ended_frames (by simp)]
      exact Or.inr ⟨rfl, hleft, fun event hmem => (not_report_of_running hrun event hmem).1⟩
  | cancelled hleft hframes hrun =>
      rw [ended_frames (by simp), hframes]
      refine Or.inr ⟨rfl, hleft, fun event hmem => ?_⟩
      rcases List.mem_append.mp hmem with hmem | hmem
      · exact (not_report_of_running hrun event hmem).1
      · cases List.mem_singleton.mp hmem
        simp [event]
  | dropped hinput | refused hinput => exact absurd hinput hlast
  | reported hframes _ hclose =>
      rw [ended_frames (by simp), hframes]
      exact Or.inl ⟨_, _, _, rfl, rfl, rfl, congrArg some hclose⟩
  | deadline _ _ | late _ _ =>
      rw [ended_expired halive]
      exact Or.inl ⟨_, _, _, rfl, rfl, rfl, rfl⟩
  | broken hwire => exact absurd hwire (halive _)

theorem run_step_refused (endpoint : Endpoint) (c : Connection) :
    ∃ exit s, (endpoint.step .refused).run c = .error exit s ∧ exit ≠ .expired ∧
    s.frames = c.frames := by
  cases hworker : c.worker with
  | none =>
      refine ⟨.failed, c, ?_, by simp, rfl⟩
      rw [step, run_bind_of_ok (run_gets _ _), hworker]
      rfl
  | some result =>
      refine ⟨.closed, c.cancel, ?_, by simp, rfl⟩
      rw [step, run_bind_of_ok (run_gets _ _), hworker]
      rfl

end Endpoint

/-- On a socket that can still send, the failures of a session are reported
exactly when it was not ended by a frame that the socket layer refused. -/
theorem failures_are_reported_unless_a_frame_is_refused (endpoint : Endpoint)
    (halive : ∀ n, endpoint.wire n ≠ .failed) (inputs : List Input) (last : Input)
    (hopen : (endpoint.websocketSession inputs).close = none)
    (hclosed : (endpoint.websocketSession (inputs ++ [last])).close ≠ none) :
    Reported last (endpoint.websocketSession (inputs ++ [last])) ↔ last ≠ .refused := by
  have hfinish : endpoint.backend.FinishesWith fun _ => True := fun _ _ _ => trivial
  obtain ⟨c, hrun⟩ := (close_eq_none halive).mp hopen
  have hbetween := (websocketLoop_spec hfinish inputs).ok Between.start hrun
  have hstep := run_websocketLoop_append hrun last
  constructor
  · rintro hreported rfl
    obtain ⟨exit, s, hrefused, hexit, hframes⟩ := run_step_refused endpoint c
    rw [session_of_error (hstep.trans hrefused)] at hreported
    refine not_reported_of_running (fun _ => True) ?_ not_clientLeft_refused hreported
    rw [ended_frames hexit, hframes]
    exact hbetween.running
  · intro hlast
    cases hs : (endpoint.step last).run c with
    | ok u s => exact absurd ((close_eq_none halive).mpr ⟨s, hstep.trans hs⟩) hclosed
    | error exit s =>
        rw [session_of_error (hstep.trans hs), if_neg (halive _)]
        exact reported_of_exits halive hlast ((step_spec hfinish last).error hbetween hs) _

theorem a_busy_engine_is_reported :
    (((liveEndpoint fakeBackend).websocketSession
      [.received (.text (some (.sessionStart .stt (some 8000))))]).close =
      some (1013, "voice capacity is busy")) ∧
    (Reported (.received (.text (some (.sessionStart .stt (some 8000)))))
      ((liveEndpoint fakeBackend).websocketSession
      ([] ++ [.received (.text (some (.sessionStart .stt (some 8000))))])) ↔
      Input.received (.text (some (.sessionStart .stt (some 8000)))) ≠ .refused) :=
  ⟨rfl,
    failures_are_reported_unless_a_frame_is_refused (liveEndpoint fakeBackend)
    (fun _ => by simp [liveEndpoint]) []
    _ rfl nofun⟩

/-- A frame over the size limit, before anything else and during a synthesis. -/
theorem a_refused_frame_is_not_reported :
    ((liveEndpoint fakeBackend).websocketSession [.refused]).close = some (1002, "protocol error") ∧
    ¬ Reported .refused ((liveEndpoint fakeBackend).websocketSession [.refused]) ∧
    ((liveEndpoint fakeBackend).websocketSession
      [.received (.text (some (.sessionStart .tts none))),
      .received (.text (some (.speechGenerate "hello" (.finite 1)))), .refused]).close =
      some (1000, "session closed") ∧
    ¬ Reported .refused
      ((liveEndpoint fakeBackend).websocketSession
      [.received (.text (some (.sessionStart .tts none))),
      .received (.text (some (.speechGenerate "hello" (.finite 1)))), .refused]) := by
  refine ⟨rfl, ?_, rfl, ?_⟩
  · exact not_reported_of_running (fun _ => True) (stage_le_running none false (nil_mem_madeOf _))
      not_clientLeft_refused
  · refine not_reported_of_running (fun _ => True) (stage_le_running (some .tts) false ?_)
      not_clientLeft_refused
    have hopening : [] ∈ stage (fun _ => True) none false := nil_mem_madeOf _
    exact stage_ready hopening .tts

end ImpossibleVoice.Server
