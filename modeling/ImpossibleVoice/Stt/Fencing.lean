import ImpossibleVoice.Lib.Fence
import ImpossibleVoice.Stt.Rules

namespace ImpossibleVoice.Stt

open Lib Audio

def RequestContext.stop {ε : Type} (cancelled deadlineExceeded : ε) (context : RequestContext)
    (time : Nat) : Option ε :=
  if context.cancelled time = true then some cancelled
  else if context.expired time = true then some deadlineExceeded
  else none

structure RequestContext.StopsForGood (context : RequestContext) : Prop where
  cancelled : ∀ t t', t ≤ t' → context.cancelled t = true → context.cancelled t' = true
  expired : ∀ t t', t ≤ t' → context.expired t = true → context.expired t' = true

theorem RequestContext.stop_eq_none {ε : Type} {cancelled deadlineExceeded : ε}
    {context : RequestContext} {time : Nat} :
    context.stop cancelled deadlineExceeded time = none ↔
      context.cancelled time ≠ true ∧ context.expired time ≠ true := by
  unfold RequestContext.stop
  split
  case isTrue h => simp [h]
  case isFalse h =>
    split
    case isTrue he => simp [he]
    case isFalse he => simp [h, he]

theorem RequestContext.StopsForGood.oneWay {ε : Type} {context : RequestContext}
    (h : context.StopsForGood) (cancelled deadlineExceeded : ε) :
    OneWay (context.stop cancelled deadlineExceeded) := by
  intro t t' hle hnone
  obtain ⟨hcancelled, hexpired⟩ := RequestContext.stop_eq_none.mp hnone
  exact RequestContext.stop_eq_none.mpr
    ⟨fun hc => hcancelled (h.cancelled t t' hle hc), fun he => hexpired (h.expired t t' hle he)⟩

def World.moment (w : World) : Moment := ⟨w.history.length, w.time, w.returned⟩

/-- Errors with another reason than the context: the input, the limiter, the
audio, or the backend's own answer to the last call. -/
def OwnError (e : SttError) (w : World) : Prop :=
  e = .invalidInput ∨ e = .busy ∨ e = .audio ∨ ∃ call, w.history.getLast? = some ⟨call, .error e⟩

abbrev RequestContext.sttStop (context : RequestContext) : Nat → Option SttError :=
  context.stop .cancelled .deadlineExceeded

def Explained (context : RequestContext) (e : SttError) (w : World) : Prop :=
  OwnError e w ∨ StoppedBy context.sttStop e w.moment

section

variable {context : RequestContext} {start : Moment}

theorem run_ensureActive (context : RequestContext) (w : World) : (ensureActive context).run w =
    match context.sttStop w.time with
    | some e => .error e w.observe
    | none => .ok () w.observe := by
  rw [ensureActive, run_bind_of_ok (run_gets _ _), run_bind_of_ok (EStateM.run_modify _ _),
    RequestContext.sttStop, RequestContext.stop]
  by_cases hc : context.cancelled w.time = true
  · rw [run_bind_of_error (run_failIf_pos hc _ _), if_pos hc]
  · rw [run_bind_of_ok (run_failIf_neg hc _ _), if_neg hc]
    by_cases he : context.expired w.time = true
    · rw [run_failIf_pos he, if_pos he]
    · rw [run_failIf_neg he, if_neg he]

theorem run_ensureActive_stopped {w : World} (h : context.sttStop w.time ≠ none) :
    ∃ e, (ensureActive context).run w = .error e w.observe := by
  rw [run_ensureActive]
  cases hstop : context.sttStop w.time with
  | none => exact absurd hstop h
  | some e => exact ⟨e, rfl⟩

theorem fencing (hgood : context.StopsForGood) (backend : Backend) (start : Moment) :
    Rules backend context (fun w => Timely start w.moment)
      (fun w => Fenced context.sttStop start w.moment) (Explained context) where
  check := by
    intro w hw
    have hobserve : Timely start w.observe.moment := hw.imp id fun h => Nat.le_succ_of_le h
    rw [run_ensureActive]
    cases hstop : context.sttStop w.time with
    | some e => exact .inr ⟨w.time, rfl, hstop⟩
    | none =>
        have hfenced : Fenced context.sttStop start w.moment :=
          Timely.fenced (hgood.oneWay _ _) hw hstop
        exact ⟨hobserve, hfenced⟩
  call call := by
    intro w _
    rw [invoke, run_bind_of_ok (run_gets _ _), run_bind_of_ok (EStateM.run_modify _ _)]
    cases hreply : backend w.history call with
    | ok text => exact .inr (Nat.le_refl _)
    | error e => exact .inl (.inr (.inr (.inr ⟨call, List.getLast?_concat⟩)))
  audio _ _ := .inl (.inr (.inr (.inl rfl)))

theorem triple_acquire (maximum : Nat) :
    Triple (fun w => Timely start (World.moment w)) (acquire maximum)
      (fun _ w => Timely start w.moment) (Explained context) := by
  refine Triple.bind (Triple.gets (Q := fun _ w => Timely start w.moment) fun _ h => h) fun _ => ?_
  refine Triple.bind (Triple.failIf fun _ _ _ => .inl (.inr (.inl rfl))) fun _ => ?_
  exact Triple.modify fun _ h => h.1

namespace SttEngine

theorem transcribe_triple (hgood : context.StopsForGood) (engine : SttEngine) (audio : MonoPcm) :
    Triple (fun w => Timely start (World.moment w)) (engine.transcribe audio context)
      (fun _ w => Fenced context.sttStop start w.moment) (Explained context) := by
  have rules := fencing hgood engine.backend start
  exact Rules.transcribe engine audio rules.passes (triple_acquire _) rules
    (fun _ _ h => h) fun _ _ h => h

theorem transcribe_fences (hgood : context.StopsForGood) (engine : SttEngine) (audio : MonoPcm)
    (w : World) :
    Fences context.sttStop World.moment OwnError (engine.transcribe audio context) w := by
  refine Fences.of_triple (fun hstopped => ?_) (transcribe_triple hgood engine audio)
  obtain ⟨e, hrun⟩ := run_ensureActive_stopped hstopped
  exact ⟨e, w.observe, by rw [transcribe, run_bind_of_error hrun], rfl⟩

end SttEngine

namespace StreamingSession

def moment (s : StreamingSession) : Moment := s.world.moment

theorem pushPcm16_triple (hgood : context.StopsForGood) (engine : SttEngine) (bytes : List UInt8) :
    Triple (fun s => Timely start (moment s)) (pushPcm16 engine context bytes)
      (fun _ s => Fenced context.sttStop start s.moment)
      (fun e s => Explained context e s.world) := by
  apply ((fencing hgood engine.backend start).pushPcm16 (fun _ _ => .inl (.inl rfl)) bytes).conseq
  · exact fun _ h => h
  · exact fun _ _ h => h.2
  · exact fun _ _ h => h

theorem finish_triple (hgood : context.StopsForGood) (engine : SttEngine) :
    Triple (fun s => Timely start (moment s)) (finish engine context)
      (fun _ s => Fenced context.sttStop start s.moment)
      (fun e s => Explained context e s.world) := by
  have hmain : InSession (fun w => Timely start w.moment) (finish engine context)
      (fun w => Fenced context.sttStop start w.moment) (Explained context) :=
    (fencing hgood engine.backend start).finish (fun _ _ => .inl (.inl rfl)) (fun _ _ h => h)
      fun _ _ h => h
  exact hmain

theorem pushPcm16_fences (hgood : context.StopsForGood) (engine : SttEngine) (bytes : List UInt8)
    (s : StreamingSession) : Fences context.sttStop moment (fun e t => OwnError e t.world)
      (pushPcm16 engine context bytes) s := by
  refine Fences.of_triple (fun hstopped => ?_) (pushPcm16_triple hgood engine bytes)
  by_cases hrefused : s.finished = true ∨ bytes = [] ∨ engine.limits.maxChunkBytes < bytes.length
  · exact ⟨.invalidInput, s, by
      rw [pushPcm16, run_bind_of_ok (run_gets _ _),
        run_bind_of_error (run_failIf_pos hrefused _ _)], rfl⟩
  · obtain ⟨e, hrun⟩ := run_ensureActive_stopped hstopped
    refine ⟨e, s.observed, ?_, rfl⟩
    rw [pushPcm16, run_bind_of_ok (run_gets _ _), run_bind_of_ok (run_failIf_neg hrefused _ _)]
    exact run_bind_of_error (run_zoom_of_error hrun)

theorem finish_fences (hgood : context.StopsForGood) (engine : SttEngine) (s : StreamingSession) :
    Fences context.sttStop moment (fun e t => OwnError e t.world) (finish engine context) s := by
  refine Fences.of_triple (fun hstopped => ?_) (finish_triple hgood engine)
  obtain ⟨e, t, hbody, hcalls⟩ : ∃ e t, (finishBody engine context).run s = .error e t ∧
      t.moment.calls = s.moment.calls := by
    by_cases hfinished : s.finished = true
    · exact ⟨.invalidInput, s, by
        rw [finishBody, run_bind_of_ok (run_gets _ _),
          run_bind_of_error (run_failIf_pos hfinished _ _)], rfl⟩
    · obtain ⟨e, hrun⟩ := run_ensureActive_stopped hstopped
      refine ⟨e, s.observed, ?_, rfl⟩
      rw [finishBody, run_bind_of_ok (run_gets _ _), run_bind_of_ok (run_failIf_neg hfinished _ _)]
      exact run_bind_of_error (run_zoom_of_error hrun)
  exact ⟨e, t.setWorld t.world.release, by rw [finish, run_ending, hbody], hcalls⟩

end StreamingSession

end

end ImpossibleVoice.Stt
