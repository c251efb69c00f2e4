import ImpossibleVoice.Audio.Vad
import ImpossibleVoice.Lib.Effect

namespace ImpossibleVoice.Stt

open Lib

inductive SttError
  | invalidInput
  | busy
  | cancelled
  | deadlineExceeded
  | audio
  | engine
deriving DecidableEq

structure SttLimits where
  maxConcurrent : Nat
  maxChunkBytes : Nat
  audio : Audio.AudioLimits

def SttLimits.default : SttLimits := ⟨2, 64 * 1024, Audio.AudioLimits.default⟩

inductive TranscriptKind
  | interim
  | final
deriving DecidableEq

@[ext] structure Transcript where
  kind : TranscriptKind
  text : String
deriving DecidableEq

/-- A call of a trait method. Streams are told apart by numbers. -/
inductive BackendCall
  | stream (id : Nat)
  | accept (id : Nat) (samples : List ℚ)
  | interim (id : Nat)
  | finish (id : Nat)
deriving DecidableEq

def BackendCall.id : BackendCall → Nat
  | stream id | accept id _ | interim id | finish id => id

/-- A call and its answer; the text of `stream` and `accept` is never read. -/
structure Exchange where
  call : BackendCall
  reply : Except SttError String

abbrev Backend := List Exchange → BackendCall → Except SttError String

def nextStream (history : List Exchange) : Nat := history.foldr (fun e n => max (e.call.id + 1) n) 0

structure RequestContext where
  cancelled : Nat → Bool
  expired : Nat → Bool

def RequestContext.live : RequestContext := ⟨fun _ => false, fun _ => false⟩

/-- What lies outside a session: the backend's history, the time, the permits
taken from the limiter, and when the last call of the backend returned. -/
@[ext] structure World where
  history : List Exchange
  time : Nat
  active : Nat
  returned : Nat

def World.observe (w : World) : World := { w with time := w.time + 1 }

def World.exchanged (w : World) (call : BackendCall) (reply : Except SttError String) : World :=
  { w with history := w.history ++ [⟨call, reply⟩], time := w.time + 1, returned := w.time + 1 }

def invoke (backend : Backend) (call : BackendCall) : EStateM SttError World String := do
  let history ← gets World.history
  modify fun w => w.exchanged call (backend history call)
  fromExcept (backend history call)

/-- `Backend::stream`. -/
def openStream (backend : Backend) : EStateM SttError World Nat := do
  let history ← gets World.history
  let _ ← invoke backend (.stream (nextStream history))
  pure (nextStream history)

def ensureActive (context : RequestContext) : EStateM SttError World Unit := do
  let time ← gets World.time
  modify World.observe
  failIf (context.cancelled time = true) .cancelled
  failIf (context.expired time = true) .deadlineExceeded

def World.hold (w : World) : World := { w with active := w.active + 1 }

/-- `Limiter::acquire`. -/
def acquire (maximum : Nat) : EStateM SttError World Unit := do
  let active ← gets World.active
  failIf (maximum ≤ active) .busy
  modify World.hold

def World.release (w : World) : World := { w with active := w.active - 1 }

theorem run_invoke_ok {backend : Backend} {call : BackendCall} {w : World} {text : String}
    (h : backend w.history call = .ok text) :
    (invoke backend call).run w = .ok text (w.exchanged call (.ok text)) := by
  rw [invoke, run_bind_of_ok (run_gets _ _), run_bind_of_ok (EStateM.run_modify _ _), h,
    run_fromExcept_ok]

theorem run_invoke_eq_ok {backend : Backend} {call : BackendCall} {w w' : World} {text : String}
    (h : (invoke backend call).run w = .ok text w') :
    backend w.history call = .ok text ∧ w' = w.exchanged call (.ok text) := by
  rw [invoke, run_bind_of_ok (run_gets _ _), run_bind_of_ok (EStateM.run_modify _ _)] at h
  obtain ⟨hreply, rfl⟩ := run_fromExcept_eq_ok h
  rw [hreply]
  exact ⟨rfl, rfl⟩

theorem run_openStream_ok {backend : Backend} {w : World} {text : String}
    (h : backend w.history (.stream (nextStream w.history)) = .ok text) :
    (openStream backend).run w =
      .ok (nextStream w.history) (w.exchanged (.stream (nextStream w.history)) (.ok text)) := by
  rw [openStream, run_bind_of_ok (run_gets _ _), run_bind_of_ok (run_invoke_ok h), EStateM.run_pure]

theorem run_openStream_eq_ok {backend : Backend} {w w' : World} {id : Nat}
    (h : (openStream backend).run w = .ok id w') :
    id = nextStream w.history ∧ ∃ text, w' = w.exchanged (.stream id) (.ok text) := by
  rw [openStream, run_bind_of_ok (run_gets _ _)] at h
  obtain ⟨text, u, hcall, hpure⟩ := run_bind_ok h
  obtain ⟨_, rfl⟩ := run_invoke_eq_ok hcall
  cases hpure
  exact ⟨rfl, text, rfl⟩

theorem run_ensureActive_live (w : World) : (ensureActive .live).run w = .ok () w.observe := rfl

theorem run_ensureActive_eq_ok {context : RequestContext} {w w' : World} {u : Unit}
    (h : (ensureActive context).run w = .ok u w') : w' = w.observe := by
  rw [ensureActive, run_bind_of_ok (run_gets _ _), run_bind_of_ok (EStateM.run_modify _ _)] at h
  obtain ⟨_, _, hcancel, hexpire⟩ := run_bind_ok h
  obtain ⟨_, rfl⟩ := run_failIf_eq_ok hcancel
  obtain ⟨_, rfl⟩ := run_failIf_eq_ok hexpire
  rfl

theorem run_acquire_ok {maximum : Nat} {w : World} (h : w.active < maximum) :
    (acquire maximum).run w = .ok () w.hold := by
  rw [acquire, run_bind_of_ok (run_gets _ _),
    run_bind_of_ok (run_failIf_neg (Nat.not_le.mpr h) _ _)]
  rfl

theorem run_acquire_eq_ok {maximum : Nat} {w w' : World} {u : Unit}
    (h : (acquire maximum).run w = .ok u w') : w.active < maximum ∧ w' = w.hold := by
  rw [acquire, run_bind_of_ok (run_gets _ _)] at h
  obtain ⟨_, _, hif, h⟩ := run_bind_ok h
  obtain ⟨hfree, rfl⟩ := run_failIf_eq_ok hif
  cases h
  exact ⟨Nat.not_le.mp hfree, rfl⟩

theorem nextStream_append (front back : List Exchange) :
    nextStream (front ++ back) = max (nextStream front) (nextStream back) := by
  induction front with
  | nil => simp [nextStream]
  | cons e front ih =>
      have hcons (history : List Exchange) :
          nextStream (e :: history) = max (e.call.id + 1) (nextStream history) := rfl
      rw [List.cons_append, hcons, hcons, ih, max_assoc]

theorem nextStream_exchanged (w : World) (call : BackendCall) (reply : Except SttError String) :
    nextStream (w.exchanged call reply).history = max (nextStream w.history) (call.id + 1) := by
  rw [World.exchanged, nextStream_append]
  simp [nextStream]

end ImpossibleVoice.Stt
