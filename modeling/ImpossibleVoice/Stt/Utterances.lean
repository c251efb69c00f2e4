import ImpossibleVoice.Lib.Handles
import ImpossibleVoice.Stt.Fragmentation

namespace ImpossibleVoice.Stt

open Lib Audio

def Exchange.op : Exchange → HandleOp (List ℚ) (Except SttError String)
  | ⟨.stream n, _⟩ => .acquire n
  | ⟨.accept n samples, _⟩ => .use n samples
  | ⟨.interim n, _⟩ => .use n []
  | ⟨.finish n, reply⟩ => .release n reply

def created (log : List Exchange) : List Nat := HandleOp.acquired (log.map Exchange.op)

def accepted (log : List Exchange) (n : Nat) : List ℚ :=
  (HandleOp.usesOf n (log.map Exchange.op)).flatten

def finishes (log : List Exchange) : List (Nat × Except SttError String) :=
  HandleOp.released (log.map Exchange.op)

def frameCalls (n : Nat) : List (List ℚ × VadEvent) → List BackendCall
  | [] => []
  | (frame, .ended) :: rest =>
      .accept n frame :: .finish n :: .stream (n + 1) :: frameCalls (n + 1) rest
  | (frame, _) :: rest => .accept n frame :: .interim n :: frameCalls n rest

def finals (updates : List Transcript) : List String :=
  updates.filterMap (fun update => if update.kind = .final then some update.text else none)

theorem finals_append (us vs : List Transcript) : finals (us ++ vs) = finals us ++ finals vs :=
  List.filterMap_append

variable {backend : Backend} {context : RequestContext}

theorem run_accept_eq_ok {samples : List ℚ} {s t : StreamingSession} {u : Unit}
    (h : (StreamingSession.accept backend samples).run s = .ok u t) :
    ∃ text,
      t = (s.setWorld (s.world.exchanged (.accept s.stream samples) (.ok text))).setHasAudio := by
  rw [StreamingSession.accept, run_bind_of_ok (run_gets _ _)] at h
  obtain ⟨text, _, hcall, h⟩ := run_bind_ok h
  obtain ⟨w, hw, rfl⟩ := run_onWorld_eq_ok hcall
  obtain ⟨_, rfl⟩ := run_invoke_eq_ok hw
  cases h
  exact ⟨text, rfl⟩

theorem run_processVad_eq_ok {samples : List ℚ} (hne : samples ≠ [])
    (hlen : samples.length < 2 ^ 32) {s t : StreamingSession} {event : VadEvent}
    (h : (StreamingSession.processVad samples).run s = .ok event t) :
    event = (s.vad.step samples).1 ∧ t = s.setVad (s.vad.step samples).2 := by
  obtain ⟨vad, hv, rfl⟩ := run_zoom_eq_ok h
  rw [EnergyVad.run_process s.vad hne hlen] at hv
  cases hv
  exact ⟨rfl, rfl⟩

theorem run_endUtterance_eq_ok {s t : StreamingSession} {updates : List Transcript}
    (hnext : nextStream s.world.history = s.stream + 1)
    (h : (StreamingSession.endUtterance backend context).run s = .ok updates t) :
    t.stream = s.stream + 1 ∧ t.vad = s.vad ∧ t.currentHasAudio = false ∧
    ∃ text reply, updates = [⟨.final, text⟩] ∧ t.lastFinal = some text ∧
    t.world.history =
      s.world.history ++ [⟨.finish s.stream, .ok text⟩, ⟨.stream (s.stream + 1), reply⟩] := by
  rw [StreamingSession.endUtterance, run_bind_of_ok (run_gets _ _)] at h
  obtain ⟨text, _, hcall, h⟩ := run_bind_ok h
  obtain ⟨w, hw, rfl⟩ := run_onWorld_eq_ok hcall
  obtain ⟨_, rfl⟩ := run_invoke_eq_ok hw
  obtain ⟨_, _, hcheck, h⟩ := run_bind_ok h
  cases run_check_eq_ok hcheck
  rw [run_bind_of_ok (EStateM.run_modify _ _)] at h
  obtain ⟨next, _, hstream, h⟩ := run_bind_ok h
  obtain ⟨w', hw', rfl⟩ := run_onWorld_eq_ok hstream
  obtain ⟨hid, reply, rfl⟩ := run_openStream_eq_ok hw'
  have hfresh : nextStream (s.world.exchanged (.finish s.stream) (.ok text)).history =
      s.stream + 1 := by
    rw [nextStream_exchanged, hnext]
    exact max_self _
  cases hid.trans hfresh
  cases h
  exact ⟨rfl, rfl, rfl, text, .ok reply, rfl, rfl, List.append_assoc _ _ _⟩

theorem run_showInterim_eq_ok {s t : StreamingSession} {updates : List Transcript}
    (h : (StreamingSession.showInterim backend).run s = .ok updates t) :
    t.stream = s.stream ∧ t.vad = s.vad ∧ t.currentHasAudio = s.currentHasAudio ∧
    t.lastFinal = s.lastFinal ∧ finals updates = [] ∧
    ∃ reply, t.world.history = s.world.history ++ [⟨.interim s.stream, reply⟩] := by
  rw [StreamingSession.showInterim, run_bind_of_ok (run_gets _ _)] at h
  obtain ⟨text, _, hcall, h⟩ := run_bind_ok h
  obtain ⟨w, hw, rfl⟩ := run_onWorld_eq_ok hcall
  obtain ⟨_, rfl⟩ := run_invoke_eq_ok hw
  rw [run_bind_of_ok (run_gets _ _)] at h
  split at h
  · cases h
    exact ⟨rfl, rfl, rfl, rfl, rfl, .ok text, rfl⟩
  · cases h
    exact ⟨rfl, rfl, rfl, rfl, rfl, .ok text, rfl⟩

theorem accepted_append (front back : List Exchange) (n : Nat) :
    accepted (front ++ back) n = accepted front n ++ accepted back n := by
  rw [accepted, List.map_append, HandleOp.usesOf_append, List.flatten_append]
  rfl

theorem finishes_append (front back : List Exchange) :
    finishes (front ++ back) = finishes front ++ finishes back := by
  rw [finishes, List.map_append, HandleOp.released_append]
  rfl

theorem frameCalls_append (n : Nat) (front back : List (List ℚ × VadEvent)) :
    frameCalls n (front ++ back) =
      frameCalls n front ++ frameCalls (n + (front.map Prod.snd).count .ended) back := by
  induction front generalizing n with
  | nil => rfl
  | cons pair front ih =>
      obtain ⟨frame, event⟩ := pair
      cases event with
      | ended =>
          simp only [List.cons_append, frameCalls, ih, List.map_cons, List.count_cons_self]
          rw [Nat.add_right_comm, Nat.add_assoc]
      | none | started =>
          simp only [List.cons_append, frameCalls, ih, List.map_cons, List.count_cons, reduceCtorEq,
            beq_iff_eq, if_false, Nat.add_zero]

/-- What a run of frames does to the session, and to the backend. -/
structure FramesRun (frames : List (List ℚ)) (s : StreamingSession) (updates : List Transcript)
    (t : StreamingSession) (log : List Exchange) : Prop where
  history : t.world.history = s.world.history ++ log
  next : nextStream t.world.history = t.stream + 1
  vad : t.vad = s.vad.after frames
  calls : log.map Exchange.call = frameCalls s.stream (frames.zip (s.vad.events frames))
  stream : t.stream = s.stream + (s.vad.events frames).count .ended
  linear : Phase.Run (.holding s.stream) (log.map Exchange.op) (.holding t.stream)
  uses : (HandleOp.uses (log.map Exchange.op)).flatten = frames.flatten
  finished : (finishes log).map Prod.snd = (finals updates).map .ok
  lastFinal : t.lastFinal = (finals updates).getLast?.or s.lastFinal
  hasAudio : t.currentHasAudio = true ↔
    accepted log t.stream ≠ [] ∨ s.currentHasAudio = true ∧ t.stream = s.stream

theorem FramesRun.nil {s : StreamingSession} (hnext : nextStream s.world.history = s.stream + 1) :
    FramesRun [] s [] s [] := by
  refine ⟨(List.append_nil _).symm, hnext, rfl, rfl, rfl, Phase.Run.nil _, rfl, rfl, rfl, ?_⟩
  simp [accepted, HandleOp.usesOf]

theorem FramesRun.append {front back : List (List ℚ)} {s t u : StreamingSession}
    {us vs : List Transcript} {log log' : List Exchange} (h : FramesRun front s us t log)
    (h' : FramesRun back t vs u log') : FramesRun (front ++ back) s (us ++ vs) u (log ++ log') := by
  have hlen := s.vad.events_length front
  have hsnd : (front.zip (s.vad.events front)).map Prod.snd = s.vad.events front :=
    List.map_snd_zip hlen.le
  refine ⟨?_, h'.next, ?_, ?_, ?_, ?_, ?_, ?_, ?_, ?_⟩
  · rw [h'.history, h.history, List.append_assoc]
  · rw [h'.vad, h.vad, EnergyVad.after, EnergyVad.after, EnergyVad.after, List.foldl_append]
  · rw [List.map_append, h.calls, h'.calls, EnergyVad.events_append, List.zip_append hlen.symm,
      frameCalls_append, hsnd, h.stream, h.vad]
  · rw [h'.stream, h.stream, h.vad, EnergyVad.events_append, List.count_append, Nat.add_assoc]
  · rw [List.map_append]
    exact h.linear.append h'.linear
  · rw [List.map_append, HandleOp.uses_append, List.flatten_append, List.flatten_append, h.uses,
      h'.uses]
  · rw [finishes_append, List.map_append, finals_append, List.map_append, h.finished, h'.finished]
  · rw [h'.lastFinal, h.lastFinal, finals_append, List.getLast?_append, Option.or_assoc]
  · rw [h'.hasAudio, h.hasAudio, accepted_append]
    have hst := h.linear.least_le.1
    have htu := h'.linear.least_le.1
    rw [Phase.least_holding, Phase.least_holding] at hst htu
    by_cases hsame : u.stream = t.stream
    · rw [hsame]
      simp only [ne_eq, List.append_eq_nil_iff, not_and_or, and_true]
      tauto
    · have hnone : accepted log u.stream = [] := by
        rw [accepted, Phase.usesOf_eq_nil, List.flatten_nil]
        intro op hop heq
        have hlt := h.linear.handle_lt_bound op hop
        rw [Phase.bound_holding] at hlt
        omega
      rw [hnone, List.nil_append]
      simp only [hsame, and_false, or_false, show ¬ u.stream = s.stream by omega]

/-- Every `Ended` has closed an utterance with a final text. -/
theorem FramesRun.finals_length {frames : List (List ℚ)} {s t : StreamingSession}
    {updates : List Transcript} {log : List Exchange} (h : FramesRun frames s updates t log) :
    (finals updates).length = (s.vad.events frames).count .ended := by
  have hreleased := congrArg List.length h.linear.released_eq
  have hfinished := congrArg List.length h.finished
  have hstream := h.stream
  rw [finishes] at hfinished
  simp only [List.length_map, List.length_range', Phase.least_holding] at hreleased hfinished
  omega

/-- Without an `Ended` all frames have gone to one stream. -/
theorem FramesRun.accepted_of_no_end {frames : List (List ℚ)} {s t : StreamingSession}
    {updates : List Transcript} {log : List Exchange} (h : FramesRun frames s updates t log)
    (hend : (s.vad.events frames).count .ended = 0) :
    t.stream = s.stream ∧ accepted log s.stream = frames.flatten := by
  have hstream : t.stream = s.stream := by rw [h.stream, hend, Nat.add_zero]
  refine ⟨hstream, ?_⟩
  have huses := h.linear.flatMap_usesOf
  rw [hstream, Phase.bound_holding, Phase.least_holding, Nat.add_sub_cancel_left, List.range'_one,
    List.flatMap_singleton] at huses
  rw [accepted, huses, h.uses]

/-- A session that has been given samples has a text to return. -/
theorem FramesRun.has_text {frames : List (List ℚ)} {s t : StreamingSession}
    {updates : List Transcript} {log : List Exchange} (h : FramesRun frames s updates t log)
    (hne : frames.flatten ≠ []) : t.currentHasAudio = true ∨ t.lastFinal ≠ none := by
  by_cases hend : (s.vad.events frames).count .ended = 0
  · obtain ⟨hstream, hgiven⟩ := h.accepted_of_no_end hend
    left
    rw [h.hasAudio, hstream, hgiven]
    exact .inl hne
  · right
    have hfinals : finals updates ≠ [] := fun hnil => hend (by rw [← h.finals_length, hnil]; rfl)
    rw [h.lastFinal, List.getLast?_eq_some_getLast hfinals]
    simp

theorem run_processFrame_eq_ok {frame : List ℚ} (hne : frame ≠ []) (hlen : frame.length < 2 ^ 32)
    {s t : StreamingSession} {updates : List Transcript}
    (hnext : nextStream s.world.history = s.stream + 1)
    (h : (StreamingSession.processFrame backend context frame).run s = .ok updates t) :
    ∃ log, FramesRun [frame] s updates t log := by
  rw [StreamingSession.processFrame] at h
  obtain ⟨_, _, hcheck, h⟩ := run_bind_ok h
  cases run_check_eq_ok hcheck
  obtain ⟨_, _, haccept, h⟩ := run_bind_ok h
  obtain ⟨given, rfl⟩ := run_accept_eq_ok haccept
  obtain ⟨event, _, hvad, h⟩ := run_bind_ok h
  obtain ⟨rfl, rfl⟩ := run_processVad_eq_ok hne hlen hvad
  generalize hs : StreamingSession.setVad _ _ = mid at h
  have hstep :
      (mid.vad = (s.vad.step frame).2 ∧ mid.stream = s.stream ∧ mid.lastFinal = s.lastFinal ∧
      mid.currentHasAudio = true) ∧
        mid.world.history = s.world.history ++ [⟨.accept s.stream frame, .ok given⟩] := by
    rw [← hs]
    exact ⟨⟨rfl, rfl, rfl, rfl⟩, rfl⟩
  obtain ⟨⟨hv, hstream, hlast, haudio⟩, hhistory⟩ := hstep
  have hnext' : nextStream mid.world.history = s.stream + 1 := by
    rw [hhistory, nextStream_append, hnext]
    exact max_self _
  have hevents : s.vad.events [frame] = [(s.vad.step frame).1] := rfl
  change ((if (s.vad.step frame).1 = .ended then StreamingSession.endUtterance backend context
    else StreamingSession.showInterim backend).run mid) = _ at h
  by_cases hended : (s.vad.step frame).1 = .ended
  · rw [if_pos hended] at h
    obtain ⟨hid, hv', haudio', text, reply, rfl, hfinal, hworld⟩ :=
      run_endUtterance_eq_ok (hstream ▸ hnext') h
    rw [hstream] at hid hworld
    rw [hended] at hevents
    refine ⟨[⟨.accept s.stream frame, .ok given⟩, ⟨.finish s.stream, .ok text⟩,
      ⟨.stream (s.stream + 1), reply⟩],
      ?_, ?_, hv'.trans hv, ?_, ?_, ?_, rfl, rfl, hfinal, ?_⟩
    · rw [hworld, hhistory, List.append_assoc]; rfl
    · rw [hworld, nextStream_append, hnext', hid]; simp [nextStream, BackendCall.id]
    · rw [hevents]; rfl
    · rw [hevents, hid]; rfl
    · rw [hid]
      exact .cons (.use _ _) (.cons (.release _ _) (.cons (.acquire _) (.nil _)))
    · rw [haudio', hid]; simp [accepted, Exchange.op, HandleOp.usesOf]
  · rw [if_neg hended] at h
    obtain ⟨hid, hv', haudio', hfinal, hnone, reply, hworld⟩ := run_showInterim_eq_ok h
    rw [hstream] at hid hworld
    refine ⟨[⟨.accept s.stream frame, .ok given⟩, ⟨.interim s.stream, reply⟩], ?_, ?_, hv'.trans hv,
      ?_, ?_, ?_, ?_, ?_,
      ?_, ?_⟩
    · rw [hworld, hhistory, List.append_assoc]; rfl
    · rw [hworld, nextStream_append, hnext', hid]; simp [nextStream, BackendCall.id]
    · rw [hevents]
      cases hevent : (s.vad.step frame).1 with
      | ended => exact absurd hevent hended
      | none | started => rfl
    · rw [hevents, hid, List.count_singleton, beq_eq_false_iff_ne.mpr hended]; rfl
    · rw [hid]
      exact .cons (.use _ _) (.cons (.use _ _) (.nil _))
    · simp [Exchange.op, HandleOp.uses]
    · rw [hnone]; rfl
    · rw [hfinal, hlast, hnone]; rfl
    · rw [haudio', haudio, hid]; simp [accepted, Exchange.op, HandleOp.usesOf, hne]

theorem run_processFrames_eq_ok {frames : List (List ℚ)}
    (hframes : ∀ f ∈ frames, f ≠ [] ∧ f.length < 2 ^ 32) {s t : StreamingSession}
    {updates : List Transcript} (hnext : nextStream s.world.history = s.stream + 1)
    (h : (collect (StreamingSession.processFrame backend context) frames).run s = .ok updates t) :
    ∃ log, FramesRun frames s updates t log := by
  induction frames generalizing s updates with
  | nil =>
      cases h
      exact ⟨[], FramesRun.nil hnext⟩
  | cons frame frames ih =>
      rw [← List.singleton_append] at h
      obtain ⟨us, mid, vs, hfirst, hrest, rfl⟩ := run_collect_append_eq_ok h
      rw [run_collect_singleton] at hfirst
      obtain ⟨hne, hlen⟩ := hframes frame List.mem_cons_self
      obtain ⟨log, hlog⟩ := run_processFrame_eq_ok hne hlen hnext hfirst
      obtain ⟨log', hlog'⟩ := ih (fun f hf => hframes f (List.mem_cons_of_mem _ hf)) hlog.next hrest
      exact ⟨log ++ log', hlog.append hlog'⟩

def closingCalls (n : Nat) (residual : List ℚ) (hasAudio : Bool) : List BackendCall :=
  (if residual = [] then [] else [.accept n residual]) ++ (if hasAudio then [.finish n] else [])

theorem run_drainResidual_eq_ok {s t : StreamingSession} {u : Unit}
    (hlen : s.residual.length < 2 ^ 32)
    (h : (StreamingSession.drainResidual backend).run s = .ok u t) :
    t.stream = s.stream ∧ t.lastFinal = s.lastFinal ∧
    t.currentHasAudio = (s.currentHasAudio || decide (s.residual ≠ [])) ∧
    ∃ log, t.world.history = s.world.history ++ log ∧
    log.map Exchange.call = (if s.residual = [] then [] else [.accept s.stream s.residual]) ∧
    (HandleOp.uses (log.map Exchange.op)).flatten = s.residual ∧
    accepted log s.stream = s.residual ∧ finishes log = [] ∧
    Phase.Run (.holding s.stream) (log.map Exchange.op) (.holding s.stream) := by
  rw [StreamingSession.drainResidual, run_bind_of_ok (run_gets _ _)] at h
  by_cases hres : s.residual = []
  · rw [if_pos hres] at h
    cases h
    refine ⟨rfl,
      rfl, by simp [hres], [], (List.append_nil _).symm, ?_, hres.symm, hres.symm, rfl, .nil _⟩
    rw [if_pos hres]; rfl
  · rw [if_neg hres] at h
    obtain ⟨_, _, haccept, h⟩ := run_bind_ok h
    obtain ⟨given, rfl⟩ := run_accept_eq_ok haccept
    obtain ⟨event, _, hvad, h⟩ := run_bind_ok h
    obtain ⟨rfl, rfl⟩ := run_processVad_eq_ok hres hlen hvad
    cases h
    refine ⟨rfl, rfl, by
        simp [hres, StreamingSession.setHasAudio, StreamingSession.setVad,
          StreamingSession.setResidual],
      [⟨.accept s.stream s.residual, .ok given⟩], rfl, ?_, ?_, ?_, rfl, .cons (.use _ _) (.nil _)⟩
    · rw [if_neg hres]; rfl
    · simp [Exchange.op, HandleOp.uses]
    · simp [accepted, Exchange.op, HandleOp.usesOf]

theorem run_lastText_eq_ok {s t : StreamingSession} {text : String}
    (h : (StreamingSession.lastText backend).run s = .ok text t) :
    ∃ log, t.world.history = s.world.history ++ log ∧
      log.map Exchange.call = (if s.currentHasAudio then [.finish s.stream] else []) ∧
      finishes log = (if s.currentHasAudio then [(s.stream, .ok text)] else []) ∧
      HandleOp.uses (log.map Exchange.op) = [] ∧ accepted log s.stream = [] ∧
      Phase.Run (.holding s.stream) (log.map Exchange.op)
        (if s.currentHasAudio then .ready (s.stream + 1) else .holding s.stream) ∧
      (s.currentHasAudio = false → s.lastFinal = some text) ∧
      (s.currentHasAudio = true → backend s.world.history (.finish s.stream) = .ok text) := by
  rw [StreamingSession.lastText, run_bind_of_ok (run_gets _ _)] at h
  by_cases haudio : s.currentHasAudio = true
  · rw [if_pos haudio, run_bind_of_ok (run_gets _ _)] at h
    obtain ⟨w, hw, rfl⟩ := run_onWorld_eq_ok h
    obtain ⟨hreply, rfl⟩ := run_invoke_eq_ok hw
    refine ⟨[⟨.finish s.stream, .ok text⟩], rfl, ?_, ?_, rfl, rfl, ?_, ?_, fun _ => hreply⟩
    · rw [if_pos haudio]; rfl
    · rw [if_pos haudio]; rfl
    · rw [if_pos haudio]; exact .cons (.release _ _) (.nil _)
    · rw [haudio]; exact fun h => absurd h (by simp)
  · rw [if_neg haudio, run_bind_of_ok (run_gets _ _), run_bind_of_ok (EStateM.run_modify _ _)] at h
    obtain ⟨hlast, rfl⟩ := run_fromExcept_eq_ok h
    refine ⟨[], (List.append_nil _).symm, ?_, ?_, rfl, rfl, ?_, fun _ => ?_,
      fun h => absurd h haudio⟩
    · rw [if_neg haudio]; rfl
    · rw [if_neg haudio]; rfl
    · rw [if_neg haudio]; exact .nil _
    · cases hfinal : s.lastFinal with
      | none => rw [hfinal] at hlast; cases hlast
      | some final => rw [hfinal] at hlast; cases hlast; rfl

structure FinishRun (backend : Backend) (s : StreamingSession) (transcript : Transcript)
    (t : StreamingSession) (hasAudio : Bool) (log : List Exchange) : Prop where
  history : t.world.history = s.world.history ++ log
  calls : log.map Exchange.call = closingCalls s.stream s.residual hasAudio
  uses : (HandleOp.uses (log.map Exchange.op)).flatten = s.residual
  accepted : accepted log s.stream = s.residual
  finished : finishes log = if hasAudio then [(s.stream, .ok transcript.text)] else []
  linear : Phase.Run (.holding s.stream) (log.map Exchange.op)
    (if hasAudio then .ready (s.stream + 1) else .holding s.stream)
  kind : transcript.kind = .final
  lastFinal : hasAudio = false → s.lastFinal = some transcript.text
  asked : hasAudio = true → ∃ drained, Stt.accepted drained s.stream = s.residual ∧
    backend (s.world.history ++ drained) (.finish s.stream) = .ok transcript.text

theorem run_finish_eq_ok {engine : SttEngine} {s t : StreamingSession} {transcript : Transcript}
    (hlen : s.residual.length < 2 ^ 32)
    (h : (StreamingSession.finish engine context).run s = .ok transcript t) :
    (∃ m, s.decoder.finish = .ok m) ∧
    ∃ log,
      FinishRun engine.backend s transcript t
      (s.currentHasAudio || decide (s.residual ≠ [])) log := by
  rw [StreamingSession.finish, run_ending] at h
  split at h
  case h_2 => cases h
  case h_1 u hbody =>
    cases h
    rw [StreamingSession.finishBody, run_bind_of_ok (run_gets _ _)] at hbody
    obtain ⟨_, _, hif, hbody⟩ := run_bind_ok hbody
    obtain ⟨_, rfl⟩ := run_failIf_eq_ok hif
    obtain ⟨_, _, hcheck, hbody⟩ := run_bind_ok hbody
    cases run_check_eq_ok hcheck
    rw [run_bind_of_ok (run_gets _ _)] at hbody
    obtain ⟨m, _, hdecoder, hbody⟩ := run_bind_ok hbody
    obtain ⟨hm, rfl⟩ := run_fromExcept_eq_ok hdecoder
    obtain ⟨_, drained, hdrain, hbody⟩ := run_bind_ok hbody
    rw [run_bind_of_ok (EStateM.run_modify _ _)] at hbody
    obtain ⟨text, last, htext, hbody⟩ := run_bind_ok hbody
    obtain ⟨_, _, hcheck', hbody⟩ := run_bind_ok hbody
    cases run_check_eq_ok hcheck'
    cases hbody
    refine ⟨⟨m, audioError_eq_ok hm⟩, ?_⟩
    obtain ⟨hstream, hlast, haudio, log, hhistory, hcalls, huses, hacc, hfin, hlin⟩ :=
      run_drainResidual_eq_ok (s := s.observed) hlen hdrain
    obtain ⟨log', hhistory', hcalls', hfin', huses', hacc', hlin', hlast', hasked⟩ :=
      run_lastText_eq_ok htext
    have hstream' : drained.setFinished.stream = s.stream := hstream
    have haudio' : drained.setFinished.currentHasAudio =
        (s.currentHasAudio || decide (s.residual ≠ [])) := haudio
    rw [hstream', haudio'] at hcalls' hfin' hlin'
    rw [hstream'] at hacc'
    rw [haudio'] at hlast'
    rw [haudio', hstream', show drained.setFinished.world = drained.world from rfl,
      hhistory] at hasked
    refine ⟨log ++ log', ?_, ?_, ?_, ?_, ?_, ?_, rfl, fun hnone => hlast.symm.trans (hlast' hnone),
      fun haudio => ⟨log, hacc, hasked haudio⟩⟩
    · exact hhistory'.trans ((congrArg (· ++ log') hhistory).trans (List.append_assoc _ _ _))
    · rw [List.map_append, hcalls, hcalls']; rfl
    · rw [List.map_append, HandleOp.uses_append, List.flatten_append, huses, huses',
        List.flatten_nil, List.append_nil]
      rfl
    · exact (accepted_append log log' s.stream).trans (by rw [hacc', List.append_nil]; exact hacc)
    · rw [finishes_append, hfin, hfin', List.nil_append]
    · rw [List.map_append]
      exact Phase.Run.append hlin hlin'

end ImpossibleVoice.Stt
