import ImpossibleVoice.Server.Failures
import ImpossibleVoice.Server.Turns

namespace ImpossibleVoice.Server

open Lib Endpoint
open Stt (Transcript)

/-- As long as it runs, a session with these messages is a started and
uncompleted STT session. -/
def Transcribing (inputs : List Input) : Prop :=
  (∃ rate, .received (.text (some (.sessionStart .stt (some rate)))) ∈ inputs) ∧
    .received (.text (some .audioCommit)) ∉ inputs

/-- The last message but for pings and pongs declares a frame of this length. -/
def Declares (inputs : List Input) (n : Nat) : Prop :=
  ∃ front controls, inputs = front ++ .received (.text (some (.audioAppend n))) :: controls ∧
    Transcribing front ∧
    0 < n ∧ n ≤ maxWsMessageBytes ∧ ∀ input ∈ controls, input.Control

theorem not_declares_nil (n : Nat) : ¬ Declares [] n := by
  rintro ⟨front, controls, hinputs, _⟩
  simp at hinputs

theorem declares_snoc {inputs : List Input} {input : Input} {n : Nat} :
    Declares (inputs ++ [input]) n ↔
      (input.Control ∧ Declares inputs n) ∨
    (input = .received (.text (some (.audioAppend n))) ∧ Transcribing inputs ∧ 0 < n ∧
      n ≤ maxWsMessageBytes) := by
  constructor
  · rintro ⟨front, controls, hinputs, hfront, hpos, hmax, hcontrols⟩
    rcases List.eq_nil_or_concat controls with rfl | ⟨controls, last, rfl⟩
    · obtain ⟨rfl, hlast⟩ := List.append_inj' hinputs rfl
      cases hlast
      exact Or.inr ⟨rfl, hfront, hpos, hmax⟩
    · rw [List.concat_eq_append, ← List.cons_append, ← List.append_assoc] at hinputs
      obtain ⟨rfl, hlast⟩ := List.append_inj' hinputs rfl
      cases hlast
      refine Or.inl ⟨hcontrols _ (by simp), front, controls, rfl, hfront, hpos, hmax, ?_⟩
      exact fun input hinput => hcontrols input (by simp [hinput])
  · rintro (⟨hcontrol, front, controls, rfl, hfront, hpos, hmax, hcontrols⟩ | ⟨rfl, hfront, hpos,
      hmax⟩)
    · refine ⟨front, controls ++ [input], by simp, hfront, hpos, hmax, ?_⟩
      intro other hother
      rcases List.mem_append.mp hother with hother | hother
      · exact hcontrols other hother
      · rwa [List.mem_singleton.mp hother]
    · exact ⟨inputs, [], rfl, hfront, hpos, hmax, fun input hinput => by simp at hinput⟩

theorem Declares.no_commit {inputs : List Input} {n : Nat} (h : Declares inputs n) :
    .received (.text (some .audioCommit)) ∉ inputs := by
  obtain ⟨front, controls, rfl, hfront, _, _, hcontrols⟩ := h
  intro hmem
  rcases List.mem_append.mp hmem with hmem | hmem
  · exact hfront.2 hmem
  · rcases List.mem_cons.mp hmem with hmem | hmem
    · cases hmem
    · exact hcontrols _ hmem

namespace Endpoint

variable (endpoint : Endpoint)

def Running (inputs : List Input) : Prop :=
  ∃ c, (endpoint.websocketLoop inputs).run .start = .ok () c

/-- Input `i` is a frame of audio that the client has declared. -/
structure DeclaredAudio (inputs : List Input) (i : Nat) (bytes : List UInt8) : Prop where
  frame : inputs[i]? = some (.received (.binary bytes))
  running : endpoint.Running (inputs.take i)
  declared : Declares (inputs.take i) bytes.length

def Delivers (inputs : List Input) (frames : List (List UInt8)) : Prop :=
  ∃ positions : List Nat, positions.Pairwise (· < ·) ∧
    (∀ i, i ∈ positions ↔ ∃ bytes, endpoint.DeclaredAudio inputs i bytes) ∧
    List.Forall₂ (endpoint.DeclaredAudio inputs) positions frames

variable {endpoint} {inputs : List Input}

theorem DeclaredAudio.lt_length {i : Nat} {bytes : List UInt8}
    (h : endpoint.DeclaredAudio inputs i bytes) : i < inputs.length :=
  (List.getElem?_eq_some_iff.mp h.frame).1

theorem declaredAudio_append {rest : List Input} {i : Nat} {bytes : List UInt8}
    (hi : i < inputs.length) :
    endpoint.DeclaredAudio (inputs ++ rest) i bytes ↔ endpoint.DeclaredAudio inputs i bytes := by
  have hframe : (inputs ++ rest)[i]? = inputs[i]? := List.getElem?_append_left hi
  have htake : (inputs ++ rest).take i = inputs.take i := List.take_append_of_le_length hi.le
  constructor
  · rintro ⟨h₁, h₂, h₃⟩
    exact ⟨hframe ▸ h₁, htake ▸ h₂, htake ▸ h₃⟩
  · rintro ⟨h₁, h₂, h₃⟩
    exact ⟨hframe.symm ▸ h₁, htake.symm ▸ h₂, htake.symm ▸ h₃⟩

theorem declaredAudio_last {input : Input} {bytes : List UInt8} :
    endpoint.DeclaredAudio (inputs ++ [input]) inputs.length bytes ↔
      input = .received (.binary bytes) ∧ endpoint.Running inputs ∧
    Declares inputs bytes.length := by
  constructor
  · rintro ⟨h₁, h₂, h₃⟩
    simp only [List.getElem?_concat_length, Option.some.injEq] at h₁
    simp only [List.take_left'] at h₂ h₃
    exact ⟨h₁, h₂, h₃⟩
  · rintro ⟨rfl, h₂, h₃⟩
    exact ⟨by simp, by simpa using h₂, by simpa using h₃⟩

theorem Delivers.snoc {input : Input} {frames : List (List UInt8)}
    (h : endpoint.Delivers inputs frames)
    (next : Option (List UInt8))
    (hnext : ∀ bytes, next = some bytes ↔
      endpoint.DeclaredAudio (inputs ++ [input]) inputs.length bytes) :
    endpoint.Delivers (inputs ++ [input]) (frames ++ next.toList) := by
  obtain ⟨positions, hsorted, hall, hframes⟩ := h
  have hbelow {i : Nat} (hi : i ∈ positions) : i < inputs.length := by
    obtain ⟨bytes, hbytes⟩ := (hall i).mp hi
    exact hbytes.lt_length
  have hold : List.Forall₂ (endpoint.DeclaredAudio (inputs ++ [input])) positions frames := by
    refine List.Forall₂.imp ?_ hframes
    exact fun i bytes hi => (declaredAudio_append hi.lt_length).mpr hi
  have hmem (i : Nat) : (∃ bytes, endpoint.DeclaredAudio (inputs ++ [input]) i bytes) ↔
      i ∈ positions ∨ i = inputs.length ∧ next ≠ none := by
    constructor
    · rintro ⟨bytes, hbytes⟩
      have hlt := hbytes.lt_length
      rw [List.length_append, List.length_singleton] at hlt
      rcases Nat.lt_succ_iff_lt_or_eq.mp hlt with hi | rfl
      · exact Or.inl ((hall i).mpr ⟨bytes, (declaredAudio_append hi).mp hbytes⟩)
      · exact Or.inr ⟨rfl, by rw [(hnext bytes).mpr hbytes]; simp⟩
    · rintro (hi | ⟨rfl, hsome⟩)
      · obtain ⟨bytes, hbytes⟩ := (hall i).mp hi
        exact ⟨bytes, (declaredAudio_append hbytes.lt_length).mpr hbytes⟩
      · obtain ⟨bytes, hbytes⟩ := Option.ne_none_iff_exists'.mp hsome
        exact ⟨bytes, (hnext bytes).mp hbytes⟩
  cases next with
  | none =>
      refine ⟨positions, hsorted, fun i => ?_, by simpa using hold⟩
      rw [hmem]
      simp
  | some bytes =>
      refine ⟨positions ++ [inputs.length], ?_, fun i => ?_, ?_⟩
      · refine List.pairwise_append.mpr ⟨hsorted, List.pairwise_singleton _ _, ?_⟩
        intro i hi j hj
        rw [List.mem_singleton.mp hj]
        exact hbelow hi
      · rw [hmem]
        simp
      · exact List.rel_append hold (.cons ((hnext bytes).mp rfl) .nil)

theorem delivers_nil : endpoint.Delivers [] [] := by
  refine ⟨[], .nil, fun i => ?_, .nil⟩
  refine ⟨fun h => by simp at h, ?_⟩
  rintro ⟨bytes, hbytes⟩
  exact absurd hbytes.lt_length (Nat.not_lt_zero i)

/-- The calls of a session in the given state: nothing, one synthesis, or a
start, pushes and perhaps the finish, all of them answered. -/
inductive Log (completed busy : Bool) : Option SessionMode → List VoiceCall → Prop
  | fresh : Log completed busy none []
  | quiet : Log completed busy (some .tts) []
  | spoken {text : String} {speed : Audio.F32}
      {reply : Option (Except VoiceBackendError Tts.Synthesis)}
      (hspoken : busy = true ∨ completed = true) :
      Log completed busy (some .tts) [.synthesize text speed reply]
  | heard {rate : UInt32} (pushed : List (List UInt8 × List Transcript))
      (hcompleted : completed = false) :
      Log completed busy (some .stt)
        (.startTranscription rate (.ok ()) :: pushed.map fun p => .pushPcm16 p.1 (.ok p.2))
  | finished {rate : UInt32} (pushed : List (List UInt8 × List Transcript)) {update : Transcript}
      (hcompleted : completed = true) :
      Log completed busy (some .stt)
        (.startTranscription rate (.ok ()) ::
          ((pushed.map fun p => .pushPcm16 p.1 (.ok p.2)) ++ [.finish (.ok update)]))

structure Ledger (inputs : List Input) (core : Core) : Prop where
  started : core.session.mode = some .stt ↔
    ∃ rate, .received (.text (some (.sessionStart .stt (some rate)))) ∈ inputs
  committed : .received (.text (some .audioCommit)) ∈ inputs ↔
    core.session.mode = some .stt ∧ core.session.completed = true
  pending : ∀ n, core.session.pendingAudio = some n ↔ Declares inputs n
  transcriber : core.session.transcriber ≠ none ↔ core.InStt
  busy : core.worker.isSome = true → core.session.mode = some .tts ∧ core.session.completed = false
  fresh : core.session.mode = none → core.session.completed = false
  log : Log core.session.completed core.worker.isSome core.session.mode core.calls

namespace Ledger

variable {core next : Core}

theorem transcribing (h : Ledger inputs core) : Transcribing inputs ↔ core.InStt := by
  rw [Transcribing, ← h.started, h.committed, Core.InStt]
  grind

theorem start : Ledger [] Connection.start.core where
  started := by simp [Connection.core, Connection.start, SessionState.new]
  committed := by simp [Connection.core, Connection.start, SessionState.new]
  pending n :=
    ⟨fun h => absurd h (by simp [Connection.core, Connection.start, SessionState.new]),
    fun h => absurd h (not_declares_nil n)⟩
  transcriber := by simp [Connection.core, Connection.start, SessionState.new, Core.InStt]
  busy h := by cases h
  fresh _ := rfl
  log := .fresh

theorem pending_none (h : Ledger inputs core) (hidle : ∀ n, ¬ Declares inputs n) :
    core.session.pendingAudio = none := by
  cases hpending : core.session.pendingAudio with
  | none => rfl
  | some n => exact absurd ((h.pending n).mp hpending) (hidle n)

theorem not_declares (h : Ledger inputs core) (hpending : core.session.pendingAudio = none)
    (n : Nat) : ¬ Declares inputs n := by
  rw [← h.pending, hpending]
  simp

theorem pending_none_of_not_inStt (h : Ledger inputs core) (hstt : ¬ core.InStt) :
    core.session.pendingAudio = none := by
  refine h.pending_none fun n hn => hstt ?_
  rw [← h.transcribing]
  refine ⟨?_, hn.no_commit⟩
  obtain ⟨front, controls, rfl, hfront, _⟩ := hn
  exact hfront.1.imp fun rate hrate => List.mem_append_left _ hrate

theorem not_declares_snoc {input : Input} (hcontrol : ¬ input.Control)
    (hother : ∀ n, input ≠ .received (.text (some (.audioAppend n)))) (n : Nat) :
    ¬ Declares (inputs ++ [input]) n := by
  rw [declares_snoc]
  rintro (⟨h, _⟩ | ⟨h, _⟩)
  · exact hcontrol h
  · exact hother n h

theorem keep (h : Ledger inputs core) {input : Input}
    (hstart : ∀ mode rate, input ≠ .received (.text (some (.sessionStart mode rate))))
    (hcommit : input ≠ .received (.text (some .audioCommit)))
    (hpending : ∀ n, core.session.pendingAudio = some n ↔ Declares (inputs ++ [input]) n) :
    Ledger (inputs ++ [input]) core where
  started := by
    simp only [List.mem_append, List.mem_singleton, (hstart _ _).symm, or_false]
    exact h.started
  committed := by
    simp only [List.mem_append, List.mem_singleton, hcommit.symm, or_false]
    exact h.committed
  pending := hpending
  transcriber := h.transcriber
  busy := h.busy
  fresh := h.fresh
  log := h.log

theorem turn (h : Ledger inputs core) {input : Input} (hturn : endpoint.Turn core input next) :
    Ledger (inputs ++ [input]) next := by
  cases hturn with
  | control hcontrol _ =>
      refine h.keep ?_ ?_ fun n => ?_
      · rintro mode rate rfl
        exact hcontrol
      · rintro rfl
        exact hcontrol
      · rw [declares_snoc, ← h.pending, and_iff_right hcontrol]
        refine ⟨Or.inl, fun hor => hor.elim id ?_⟩
        rintro ⟨rfl, _⟩
        exact hcontrol.elim
  | ping hpending =>
      have hidle : core.session.pendingAudio = none := by
        by_cases hworker : core.worker = none
        · exact hpending hworker
        · refine h.pending_none_of_not_inStt fun hstt => ?_
          have hbusy := (h.busy (Option.isSome_iff_ne_none.mpr hworker)).1
          rw [hstt.1] at hbusy
          cases hbusy
      refine h.keep (by simp) (by simp) fun n => ?_
      rw [hidle]
      exact iff_of_false (by simp) (not_declares_snoc (by simp [Input.Control]) (by simp) n)
  | @startStt rate hworker hpending hmode hreply =>
      have hlog := h.log
      have hcompleted := h.fresh hmode
      rw [hmode] at hlog
      generalize hcalls : core.calls = calls at hlog ⊢
      cases hlog
      refine ⟨iff_of_true rfl ⟨rate, by simp⟩, ?_, fun n => ?_,
        iff_of_true (by simp) ⟨rfl, hcompleted⟩, by simp, by simp, ?_⟩
      · have hnever : .received (.text (some .audioCommit)) ∉ inputs := by
          rw [h.committed, hmode]
          simp
        simp [hnever, hcompleted]
      · exact iff_of_false (by simp [hpending])
          (not_declares_snoc (by simp [Input.Control]) (by simp) n)
      · exact .heard [] hcompleted
  | startTts hworker hpending hmode =>
      have hlog := h.log
      have hstarted := h.started
      rw [hmode] at hlog hstarted
      have hnever : .received (.text (some .audioCommit)) ∉ inputs := by
        rw [h.committed, hmode]
        simp
      have htranscriber : core.session.transcriber = none := by
        by_contra hsome
        have hstt := (h.transcriber.mp hsome).1
        rw [hmode] at hstt
        cases hstt
      generalize hcalls : core.calls = calls at hlog ⊢
      cases hlog
      refine ⟨?_, by simp [hnever], fun n => ?_,
        iff_of_false (by simp [htranscriber]) (by simp [Core.InStt]), by simp, by simp, .quiet⟩
      · simpa using hstarted
      · exact iff_of_false (by simp [hpending])
          (not_declares_snoc (by simp [Input.Control]) (by simp) n)
  | declare hworker hpending hstt hpos hmax =>
      have hlog := h.log
      rw [hworker] at hlog
      refine ⟨by simpa using h.started, by simpa using h.committed, fun n => ?_, h.transcriber,
        by simp, h.fresh, hlog⟩
      rw [declares_snoc, h.transcribing, and_iff_right hstt]
      simp only [Input.Control, false_and, false_or, Option.some.injEq, Input.received.injEq,
        Message.text.injEq, ClientEvent.audioAppend.injEq]
      refine ⟨?_, fun hn => hn.1⟩
      rintro rfl
      exact ⟨rfl, hpos, hmax⟩
  | commit hworker hpending hstt htranscriber hreply =>
      have hlog := h.log
      rw [hstt.1, hstt.2] at hlog
      refine ⟨by simpa using h.started, by simp [hstt.1], fun n => ?_,
        iff_of_false (by simp) (by simp [Core.InStt]), by simp,
        fun hnone => absurd hnone (by simp [hstt.1]), ?_⟩
      · exact iff_of_false (by simp [hpending])
          (not_declares_snoc (by simp [Input.Control]) (by simp) n)
      · rw [hstt.1]
        generalize core.calls = calls at hlog ⊢
        cases hlog with
        | heard pushed _ => exact .finished pushed rfl
        | finished _ hcompleted => cases hcompleted
  | speak hworker hpending hmode hcompleted hreply =>
      have hlog := h.log
      rw [hmode, hcompleted, hworker] at hlog
      refine ⟨by simpa using h.started, by simpa using h.committed, fun n => ?_, h.transcriber,
        fun _ => ⟨hmode, hcompleted⟩, h.fresh, ?_⟩
      · exact iff_of_false (by simp [hpending])
          (not_declares_snoc (by simp [Input.Control]) (by simp) n)
      · rw [hmode]
        generalize core.calls = calls at hlog ⊢
        cases hlog with
        | quiet => exact .spoken (Or.inl rfl)
        | spoken hspoken => simp at hspoken
  | spoken hworker =>
      have hbusy := h.busy (by rw [hworker]; rfl)
      have hstt : ¬ core.InStt := by simp [Core.InStt, hbusy.1]
      have hpending := h.pending_none_of_not_inStt hstt
      have hlog := h.log
      rw [hbusy.1] at hlog
      refine ⟨by simpa using h.started, ?_, fun n => ?_, ?_, by simp, ?_, ?_⟩
      · have hcommitted := h.committed
        simp only [hbusy.1] at hcommitted ⊢
        simpa using hcommitted
      · refine iff_of_false (by simp [hpending]) ?_
        rw [declares_snoc]
        rintro (⟨_, hn⟩ | ⟨hn, _⟩)
        · exact h.not_declares hpending n hn
        · cases hn
      · exact iff_of_false (fun hsome => hstt (h.transcriber.mp hsome)) (by simp [Core.InStt])
      · simp [hbusy.1]
      · rw [hbusy.1]
        generalize core.calls = calls at hlog ⊢
        cases hlog with
        | quiet => exact .quiet
        | spoken _ => exact .spoken (Or.inr rfl)
  | @push bytes updates hworker hpending hmax htranscriber hreply =>
      have hstt := h.transcriber.mp htranscriber
      have hlog := h.log
      rw [hstt.1, hstt.2] at hlog
      refine ⟨by simpa using h.started, by simpa using h.committed, fun n => ?_, h.transcriber,
        by simp, h.fresh, ?_⟩
      · exact iff_of_false (by simp) (not_declares_snoc (by simp [Input.Control]) (by simp) n)
      · rw [hstt.1]
        generalize core.calls = calls at hlog ⊢
        cases hlog with
        | finished _ hcompleted => cases hcompleted
        | @heard rate pushed _ =>
            have hlog := @Log.heard _ false rate (pushed ++ [(bytes, updates)]) hstt.2
            rw [List.map_append] at hlog
            exact hlog

end Ledger

theorem Turn.calls_eq {core next : Core} {input : Input} (h : endpoint.Turn core input next) :
    next.calls = core.calls ++ (endpoint.callOf core input).toList := by
  cases h with
  | @control input hcontrol hworker =>
      have hcall : endpoint.callOf core input = none := by
        match input with
        | .received (.ping _) | .received (.pong _) | .workerDone => simp [callOf]
      rw [hcall, Option.toList_none, List.append_nil]
  | ping _ => simp [callOf, callOfEvent]
  | startStt hworker hpending hmode hreply =>
      simp [callOf, callOfEvent, callOfStart, hworker, hpending, hmode, hreply]
  | startTts _ _ _ => simp [callOf, callOfEvent, callOfStart]
  | declare _ _ _ _ _ => simp [callOf, callOfEvent]
  | commit hworker hpending hstt htranscriber hreply =>
      simp [callOf, callOfEvent, hworker, hpending, hstt, htranscriber, hreply]
  | speak hworker hpending hmode hcompleted hreply =>
      simp [callOf, callOfEvent, hworker, hpending, hmode, hcompleted, hreply]
  | spoken _ => simp [callOf]
  | push hworker hpending hmax htranscriber hreply =>
      simp [callOf, hworker, hpending, hmax, htranscriber, hreply]

theorem run_websocketLoop_of_append (front rest : List Input) (s : Connection) :
    (endpoint.websocketLoop (front ++ rest)).run s =
      match (endpoint.websocketLoop front).run s with
      | .ok _ c => (endpoint.websocketLoop rest).run c
      | .error exit c => .error exit c := by
  induction front generalizing s with
  | nil => rfl
  | cons input front ih =>
      rw [List.cons_append, websocketLoop, websocketLoop, EStateM.run_bind, EStateM.run_bind]
      cases (endpoint.step input).run s with
      | ok _ c => exact ih c
      | error exit c => rfl

theorem running_of_append {front rest : List Input} (h : endpoint.Running (front ++ rest)) :
    endpoint.Running front := by
  obtain ⟨c, hc⟩ := h
  rw [run_websocketLoop_of_append] at hc
  cases hrun : (endpoint.websocketLoop front).run .start with
  | ok _ d => exact ⟨d, hrun⟩
  | error exit d =>
      rw [hrun] at hc
      cases hc

theorem ledger_of_run {c : Connection} (h : (endpoint.websocketLoop inputs).run .start = .ok () c) :
    Ledger inputs c.core := by
  induction inputs using List.reverseRecOn generalizing c with
  | nil =>
      cases h
      exact .start
  | append_singleton inputs input ih =>
      obtain ⟨d, hd⟩ := running_of_append ⟨c, h⟩
      rw [run_websocketLoop_append hd] at h
      exact (ih hd).turn ((step_takes d.core input).ok rfl h)

def callsAfter (endpoint : Endpoint) (inputs : List Input) : List VoiceCall :=
  (endpoint.websocketSession inputs).calls

theorem ended_calls (exit : Exit) (c : Connection) : (endpoint.ended exit c).calls = c.calls := by
  simp only [ended, trySend]
  split
  · split <;> rfl
  · rfl

theorem callsAfter_of_ok {c : Connection}
    (h : (endpoint.websocketLoop inputs).run .start = .ok () c) :
    endpoint.callsAfter inputs = c.calls := by
  rw [callsAfter, session_of_ok h]

theorem callsAfter_of_error {exit : Exit} {c : Connection}
    (h : (endpoint.websocketLoop inputs).run .start = .error exit c) :
    endpoint.callsAfter inputs = c.calls := by
  rw [callsAfter, session_of_error h]
  exact ended_calls exit c

theorem callsAfter_snoc {c : Connection}
    (h : (endpoint.websocketLoop inputs).run .start = .ok () c) (input : Input) :
    endpoint.callsAfter (inputs ++ [input]) =
      endpoint.callsAfter inputs ++ (endpoint.callOf c.core input).toList := by
  have hrun := run_websocketLoop_append h input
  rw [callsAfter_of_ok h]
  cases hstep : (endpoint.step input).run c with
  | ok _ d =>
      rw [callsAfter_of_ok (hrun.trans hstep)]
      exact ((step_takes c.core input).ok rfl hstep).calls_eq
  | error exit d =>
      rw [callsAfter_of_error (hrun.trans hstep)]
      exact (step_takes c.core input).error rfl hstep

theorem callsAfter_of_not_running {rest : List Input} (h : ¬ endpoint.Running inputs) :
    endpoint.callsAfter (inputs ++ rest) = endpoint.callsAfter inputs := by
  cases hrun : (endpoint.websocketLoop inputs).run .start with
  | ok _ c => exact absurd ⟨c, hrun⟩ h
  | error exit c =>
      have hrest : (endpoint.websocketLoop (inputs ++ rest)).run .start = .error exit c := by
        rw [run_websocketLoop_of_append, hrun]
      rw [callsAfter_of_error hrun, callsAfter_of_error hrest]

end Endpoint

def VoiceCall.audio : VoiceCall → Option (List UInt8)
  | pushPcm16 bytes _ => some bytes
  | _ => none

def VoiceCall.starts : VoiceCall → Bool
  | startTranscription _ _ => true
  | _ => false

def VoiceCall.finishes : VoiceCall → Bool
  | finish _ => true
  | _ => false

def VoiceCall.failed : VoiceCall → Bool
  | startTranscription _ (.error _) | pushPcm16 _ (.error _) | finish (.error _) | synthesize
    _ _ (some (.error _))
  | synthesize _ _ none => true
  | _ => false

/-- At most one start, and nothing after the finish or after an error. -/
structure Orderly (calls : List VoiceCall) : Prop where
  starts : calls.countP VoiceCall.starts ≤ 1
  last : ∀ before call after, calls = before ++ call :: after →
    (call.finishes || call.failed) = true → after = []

theorem Orderly.of_settled {front : List VoiceCall} {last : Option VoiceCall}
    (hstarts : (front ++ last.toList).countP VoiceCall.starts ≤ 1)
    (hfront : ∀ call ∈ front, (call.finishes || call.failed) = false) :
    Orderly (front ++ last.toList) := by
  refine ⟨hstarts, fun before call after hcalls hcall => ?_⟩
  rcases List.eq_nil_or_concat after with rfl | ⟨after, final, rfl⟩
  · rfl
  · rw [List.concat_eq_append, ← List.cons_append, ← List.append_assoc] at hcalls
    have hmem : call ∈ front := by
      cases last with
      | none =>
          rw [Option.toList_none, List.append_nil] at hcalls
          simp [hcalls]
      | some last =>
          obtain ⟨hfront, _⟩ := List.append_inj' hcalls rfl
          simp [hfront]
    rw [hfront call hmem] at hcall
    cases hcall

theorem Orderly.finishes {calls : List VoiceCall} (h : Orderly calls) :
    calls.countP VoiceCall.finishes ≤ 1 := by
  rcases List.eq_nil_or_concat calls with rfl | ⟨front, final, rfl⟩
  · exact Nat.zero_le 1
  · rw [List.concat_eq_append] at h ⊢
    have hzero : front.countP VoiceCall.finishes = 0 := by
      rw [List.countP_eq_zero]
      intro call hcall hfinish
      obtain ⟨before, after, rfl⟩ := List.append_of_mem hcall
      have hlast := h.last before call (after ++ [final]) (by simp) (by simp [hfinish])
      simp at hlast
    rw [List.countP_append, hzero, Nat.zero_add]
    exact List.countP_le_length

namespace Endpoint

variable {endpoint : Endpoint} {inputs : List Input} {core : Core} {input : Input}

theorem audio_callOf (h : Ledger inputs core) {bytes : List UInt8} :
    (endpoint.callOf core input).bind VoiceCall.audio = some bytes ↔
      input = .received (.binary bytes) ∧ Declares inputs bytes.length := by
  constructor
  · intro haudio
    obtain ⟨call, hcall, hbytes⟩ := Option.bind_eq_some_iff.mp haudio
    obtain ⟨_, hcalls⟩ := calls_of_callOf hcall
    cases hcalls with
    | start | finish | speak => cases hbytes
    | push hpending _ =>
        cases hbytes
        exact ⟨rfl, (h.pending _).mp hpending⟩
  · rintro ⟨rfl, hdeclared⟩
    have hpending := (h.pending _).mpr hdeclared
    have hstt : core.InStt := by
      by_contra hstt
      rw [h.pending_none_of_not_inStt hstt] at hpending
      cases hpending
    have hworker : core.worker = none := by
      by_contra hbusy
      have hmode := (h.busy (Option.isSome_iff_ne_none.mpr hbusy)).1
      rw [hstt.1] at hmode
      cases hmode
    have hmax : bytes.length ≤ maxWsMessageBytes := by
      obtain ⟨_, _, _, _, _, hmax, _⟩ := hdeclared
      exact hmax
    simp [callOf, hworker, hpending, hmax, h.transcriber.mpr hstt, VoiceCall.audio]

theorem orderly_last (last : Option VoiceCall) : Orderly ([] ++ last.toList) := by
  refine .of_settled ?_ (by simp)
  cases last with
  | none => simp
  | some call => exact List.countP_le_length

theorem orderly_heard (rate : UInt32) (pushed : List (List UInt8 × List Transcript))
    (last : Option VoiceCall) (hlast : ∀ call, last = some call → call.starts = false) :
    Orderly
      ((.startTranscription rate (.ok ()) :: pushed.map fun p => .pushPcm16 p.1 (.ok p.2)) ++
      last.toList) := by
  refine .of_settled ?_ ?_
  · have hpushed : (pushed.map fun p => VoiceCall.pushPcm16 p.1 (.ok p.2)).countP VoiceCall.starts =
        0 := by
      simp [List.countP_eq_zero, VoiceCall.starts]
    have hnext : last.toList.countP VoiceCall.starts = 0 := by
      rw [List.countP_eq_zero]
      intro call hcall
      rw [hlast call (by simpa using hcall)]
      simp
    rw [List.countP_append, List.countP_cons, hpushed, hnext]
    simp [VoiceCall.starts]
  · intro call hcall
    rcases List.mem_cons.mp hcall with rfl | hcall
    · rfl
    · obtain ⟨p, _, rfl⟩ := List.mem_map.mp hcall
      rfl

theorem Log.orderly {completed busy : Bool} {mode : Option SessionMode} {calls : List VoiceCall}
    (h : Log completed busy mode calls) : Orderly calls := by
  cases h with
  | fresh | quiet => exact orderly_last none
  | spoken _ => exact orderly_last (some _)
  | heard pushed _ => simpa using orderly_heard _ pushed none (by simp)
  | finished pushed _ => exact orderly_heard _ pushed (some _) (by simp [VoiceCall.starts])

theorem orderly_callOf (h : Ledger inputs core) (input : Input) :
    Orderly (core.calls ++ (endpoint.callOf core input).toList) := by
  have hlog := h.log
  cases hcall : endpoint.callOf core input with
  | none =>
      rw [Option.toList_none, List.append_nil]
      exact hlog.orderly
  | some call =>
      obtain ⟨hworker, hcalls⟩ := calls_of_callOf hcall
      have hopen (hstt : core.InStt) (hstarts : call.starts = false) :
          Orderly (core.calls ++ [call]) := by
        rw [hstt.1, hstt.2] at hlog
        generalize core.calls = calls at hlog ⊢
        cases hlog with
        | finished _ hcompleted => cases hcompleted
        | heard pushed _ => exact orderly_heard _ pushed (some call) (by simpa using hstarts)
      cases hcalls with
      | start hmode =>
          rw [hmode] at hlog
          generalize core.calls = calls at hlog ⊢
          cases hlog
          exact orderly_last (some _)
      | push _ htranscriber => exact hopen (h.transcriber.mp htranscriber) rfl
      | finish hstt => exact hopen hstt rfl
      | speak hmode hcompleted =>
          rw [hmode, hcompleted, hworker] at hlog
          generalize core.calls = calls at hlog ⊢
          cases hlog with
          | quiet => exact orderly_last (some _)
          | spoken hspoken => simp at hspoken

theorem orderly_callsAfter (endpoint : Endpoint) (inputs : List Input) :
    Orderly (endpoint.callsAfter inputs) := by
  induction inputs using List.reverseRecOn with
  | nil => exact orderly_last none
  | append_singleton inputs input ih =>
      by_cases hrunning : endpoint.Running inputs
      · obtain ⟨c, hc⟩ := hrunning
        rw [callsAfter_snoc hc, callsAfter_of_ok hc]
        exact orderly_callOf (ledger_of_run hc) input
      · rw [callsAfter_of_not_running hrunning]
        exact ih

theorem delivers_callsAfter (endpoint : Endpoint) (inputs : List Input) :
    endpoint.Delivers inputs ((endpoint.callsAfter inputs).filterMap VoiceCall.audio) := by
  induction inputs using List.reverseRecOn with
  | nil => exact delivers_nil
  | append_singleton inputs input ih =>
      by_cases hrunning : endpoint.Running inputs
      · obtain ⟨c, hc⟩ := hrunning
        have hnext : ((endpoint.callOf c.core input).toList).filterMap VoiceCall.audio =
            ((endpoint.callOf c.core input).bind VoiceCall.audio).toList := by
          cases endpoint.callOf c.core input with
          | none => rfl
          | some call => cases call <;> rfl
        rw [callsAfter_snoc hc, List.filterMap_append, hnext]
        refine ih.snoc _ fun bytes => ?_
        rw [audio_callOf (ledger_of_run hc), declaredAudio_last]
        exact ⟨fun h => ⟨h.1, ⟨c, hc⟩, h.2⟩, fun h => ⟨h.1, h.2.2⟩⟩
      · rw [callsAfter_of_not_running hrunning]
        have hnone (bytes : List UInt8) :
            none = some bytes ↔ endpoint.DeclaredAudio (inputs ++ [input]) inputs.length bytes := by
          rw [declaredAudio_last]
          simp [hrunning]
        simpa using ih.snoc none hnone

end Endpoint

/-- The turn of input `i`, the first commit, made this call, and no declared
audio comes later. -/
structure FinishedAt (endpoint : Endpoint) (inputs : List Input) (call : VoiceCall) (i : Nat) :
    Prop where
  commit : inputs[i]? = some (.received (.text (some .audioCommit)))
  first : .received (.text (some .audioCommit)) ∉ inputs.take i
  call : endpoint.callsAfter (inputs.take (i + 1)) = endpoint.callsAfter (inputs.take i) ++ [call]
  audio : ∀ k bytes, endpoint.DeclaredAudio inputs k bytes → k < i

/-- Only declared audio reaches the recogniser, and calls on it keep their
order. What ends a session is the last that is heard of it. -/
structure HearsDeclaredAudio (endpoint : Endpoint) (inputs : List Input) : Prop where
  audio : endpoint.Delivers inputs ((endpoint.callsAfter inputs).filterMap VoiceCall.audio)
  undeclared : ∀ i bytes, inputs[i]? = some (.received (.binary bytes)) →
    ¬ endpoint.DeclaredAudio inputs i bytes →
    ¬ endpoint.Running (inputs.take (i + 1)) ∧
      endpoint.callsAfter inputs = endpoint.callsAfter (inputs.take i)
  interrupted : ∀ i n event, Declares (inputs.take i) n →
    inputs[i]? = some (.received (.text event)) →
    ¬ endpoint.Running (inputs.take (i + 1)) ∧
      endpoint.callsAfter inputs = endpoint.callsAfter (inputs.take i)
  starts : (endpoint.callsAfter inputs).countP VoiceCall.starts ≤ 1
  finishes : (endpoint.callsAfter inputs).countP VoiceCall.finishes ≤ 1
  finish : ∀ call ∈ endpoint.callsAfter inputs, call.finishes = true →
    ∃ i, FinishedAt endpoint inputs call i
  last : ∀ before call after, endpoint.callsAfter inputs = before ++ call :: after →
    (call.finishes || call.failed) = true → after = []

namespace Endpoint

variable {endpoint : Endpoint} {inputs : List Input}

theorem take_succ_eq {i : Nat} {input : Input} (h : inputs[i]? = some input) :
    inputs.take (i + 1) = inputs.take i ++ [input] := by
  rw [List.take_add_one, h]
  rfl

theorem callsAfter_of_ended {i : Nat} {input : Input} (h : inputs[i]? = some input)
    (hended : ∀ core, Ledger (inputs.take i) core → endpoint.Running (inputs.take i) →
      endpoint.callOf core input = none ∧ ∀ next, ¬ endpoint.Turn core input next) :
    ¬ endpoint.Running (inputs.take (i + 1)) ∧
      endpoint.callsAfter inputs = endpoint.callsAfter (inputs.take i) := by
  have htake := take_succ_eq h
  have hnot : ¬ endpoint.Running (inputs.take (i + 1)) := by
    rw [htake]
    intro hrunning
    obtain ⟨c, hc⟩ := running_of_append hrunning
    obtain ⟨d, hd⟩ := hrunning
    rw [run_websocketLoop_append hc] at hd
    exact (hended c.core (ledger_of_run hc) ⟨c, hc⟩).2 _ ((step_takes c.core input).ok rfl hd)
  refine ⟨hnot, ?_⟩
  have hcalls : endpoint.callsAfter inputs = endpoint.callsAfter (inputs.take (i + 1)) := by
    conv_lhs => rw [← List.take_append_drop (i + 1) inputs]
    exact callsAfter_of_not_running hnot
  rw [hcalls, htake]
  by_cases hrunning : endpoint.Running (inputs.take i)
  · obtain ⟨c, hc⟩ := hrunning
    rw [callsAfter_snoc hc, (hended c.core (ledger_of_run hc) ⟨c, hc⟩).1, Option.toList_none,
      List.append_nil]
  · exact callsAfter_of_not_running hrunning

theorem undeclared_ends {i : Nat} {bytes : List UInt8}
    (h : inputs[i]? = some (.received (.binary bytes)))
    (hundeclared : ¬ endpoint.DeclaredAudio inputs i bytes) :
    ¬ endpoint.Running (inputs.take (i + 1)) ∧
      endpoint.callsAfter inputs = endpoint.callsAfter (inputs.take i) := by
  refine callsAfter_of_ended h fun core hledger hrunning => ?_
  have hnot : core.session.pendingAudio ≠ some bytes.length := by
    intro hpending
    exact hundeclared ⟨h, hrunning, (hledger.pending _).mp hpending⟩
  constructor
  · rw [Option.eq_none_iff_forall_ne_some]
    intro call hcall
    cases (calls_of_callOf hcall).2 with
    | push hpending _ => exact hnot hpending
  · intro next hturn
    cases hturn with
    | control hcontrol _ => exact hcontrol
    | push _ hpending _ _ _ => exact hnot hpending

theorem interrupted_ends {i n : Nat} {event : Option ClientEvent}
    (h : inputs[i]? = some (.received (.text event))) (hdeclared : Declares (inputs.take i) n) :
    ¬ endpoint.Running (inputs.take (i + 1)) ∧
      endpoint.callsAfter inputs = endpoint.callsAfter (inputs.take i) := by
  refine callsAfter_of_ended h fun core hledger _ => ?_
  have hpending := (hledger.pending n).mpr hdeclared
  have hworker : core.worker = none := by
    by_contra hbusy
    have hmode := (hledger.busy (Option.isSome_iff_ne_none.mpr hbusy)).1
    have hidle := hledger.pending_none_of_not_inStt (by simp [Core.InStt, hmode])
    rw [hpending] at hidle
    cases hidle
  constructor
  · cases event <;> simp [callOf, hpending]
  · intro next hturn
    cases hturn with
    | control hcontrol _ => exact hcontrol
    | ping hidle =>
        rw [hidle hworker] at hpending
        cases hpending
    | startStt _ hidle _ _ | startTts _ hidle _ | declare _ hidle _ _ _ | commit _ hidle _ _ _
    | speak _ hidle _ _ _ =>
        rw [hidle] at hpending
        cases hpending

theorem finishedAt_snoc {call : VoiceCall} {i : Nat} (h : FinishedAt endpoint inputs call i)
    (input : Input) : FinishedAt endpoint (inputs ++ [input]) call i := by
  have hi : i < inputs.length := (List.getElem?_eq_some_iff.mp h.commit).1
  have htake {n : Nat} (hn : n ≤ inputs.length) : (inputs ++ [input]).take n = inputs.take n :=
    List.take_append_of_le_length hn
  refine ⟨?_, ?_, ?_, fun k bytes hk => ?_⟩
  · rw [List.getElem?_append_left hi]
    exact h.commit
  · rw [htake hi.le]
    exact h.first
  · rw [htake hi, htake hi.le]
    exact h.call
  · have hlt := hk.lt_length
    rw [List.length_append, List.length_singleton] at hlt
    rcases Nat.lt_succ_iff_lt_or_eq.mp hlt with hlt | rfl
    · exact h.audio k bytes ((declaredAudio_append hlt).mp hk)
    · have hcommit := List.mem_of_getElem? h.commit
      exact absurd hcommit (declaredAudio_last.mp hk).2.2.no_commit

theorem finishedAt_of_mem (endpoint : Endpoint) (inputs : List Input) {call : VoiceCall}
    (hcall : call ∈ endpoint.callsAfter inputs) (hfinish : call.finishes = true) :
    ∃ i, FinishedAt endpoint inputs call i := by
  induction inputs using List.reverseRecOn with
  | nil => cases hcall
  | append_singleton inputs input ih =>
      by_cases hrunning : endpoint.Running inputs
      · obtain ⟨c, hc⟩ := hrunning
        have hcalls := callsAfter_snoc hc input
        rw [hcalls, List.mem_append, Option.mem_toList] at hcall
        rcases hcall with hcall | hcall
        · obtain ⟨i, hi⟩ := ih hcall
          exact ⟨i, finishedAt_snoc hi input⟩
        · have hledger := ledger_of_run hc
          cases (calls_of_callOf hcall).2 with
          | start | push | speak => cases hfinish
          | finish hstt =>
              refine ⟨inputs.length, by simp, ?_, ?_, fun k bytes hk => ?_⟩
              · rw [List.take_left', hledger.committed, hstt.2]
                · simp
                · rfl
              · rw [List.take_of_length_le (by simp), List.take_left' rfl, hcalls, hcall]
                rfl
              · have hlt := hk.lt_length
                rw [List.length_append, List.length_singleton] at hlt
                rcases Nat.lt_succ_iff_lt_or_eq.mp hlt with hlt | rfl
                · exact hlt
                · cases (declaredAudio_last.mp hk).1
      · rw [callsAfter_of_not_running hrunning] at hcall
        obtain ⟨i, hi⟩ := ih hcall
        exact ⟨i, finishedAt_snoc hi input⟩

end Endpoint

theorem exactly_the_declared_audio_is_heard (endpoint : Endpoint) (inputs : List Input) :
    HearsDeclaredAudio endpoint inputs where
  audio := delivers_callsAfter endpoint inputs
  undeclared _ _ hframe hundeclared := undeclared_ends hframe hundeclared
  interrupted _ _ _ hdeclared hevent := interrupted_ends hevent hdeclared
  starts := (orderly_callsAfter endpoint inputs).starts
  finishes := (orderly_callsAfter endpoint inputs).finishes
  finish _ hcall hfinish := finishedAt_of_mem endpoint inputs hcall hfinish
  last := (orderly_callsAfter endpoint inputs).last

end ImpossibleVoice.Server
