import ImpossibleVoice.Lib.Interleaving
import ImpossibleVoice.Lib.Semaphore

namespace ImpossibleVoice.Server

open Lib

def usizeMax : Nat := 18446744073709551615

def u64Max : Nat := 18446744073709551615

/-- `usize::saturating_add`. -/
def saturatingAdd (a b : Nat) : Nat := min (a + b) usizeMax

inductive DrainOutcome
  | graceful
  | forced
deriving DecidableEq

inductive Phase
  | accepting
  | draining
  | stopped (outcome : DrainOutcome)
deriving DecidableEq

structure Gate where
  phase : Phase
  active : Nat
deriving DecidableEq

namespace Gate

def new : Gate := ⟨.accepting, 0⟩

def tryEnter (gate : Gate) : Option Gate :=
  if gate.phase = .accepting ∧ gate.active < usizeMax then
    some { gate with active := gate.active + 1 } else none

/-- The drop of a `WorkGuard`. -/
def leave (gate : Gate) : Gate :=
  if gate.active - 1 = 0 ∧ gate.phase = .draining then ⟨.stopped .graceful, gate.active - 1⟩
  else { gate with active := gate.active - 1 }

def beginDrain (gate : Gate) : Gate :=
  match gate.phase with
  | .stopped _ => gate
  | .accepting | .draining =>
      if gate.active = 0 then { gate with phase := .stopped .graceful }
        else { gate with phase := .draining }

def stopNow (gate : Gate) : Gate :=
  match gate.phase with
  | .stopped _ => gate
  | .accepting | .draining => { gate with phase := .stopped .forced }

def terminalOutcome (gate : Gate) : DrainOutcome :=
  match gate.phase with
  | .stopped outcome => outcome
  | .accepting | .draining => .forced

end Gate

structure ServerLimits where
  maxConcurrentRequests : Nat
  queueCapacity : Nat
  maxConcurrentRequests_pos : 0 < maxConcurrentRequests
  queueCapacity_pos : 0 < queueCapacity
  maxConcurrentRequests_le : maxConcurrentRequests ≤ 1000000
  queueCapacity_le : queueCapacity ≤ 1000000

structure PublicError where
  status : Nat
  code : String
  message : String
deriving DecidableEq

namespace PublicError

def cancelled : PublicError := ⟨503, "cancelled", "the request was cancelled"⟩

def overloaded : PublicError := ⟨429, "overloaded", "the service is temporarily overloaded"⟩

def internal : PublicError := ⟨500, "internal", "an internal server error occurred"⟩

def payloadTooLarge : PublicError :=
  ⟨413, "invalid_request", "the request body exceeds the configured limit"⟩

def deadlineExceeded : PublicError :=
  ⟨504, "deadline_exceeded", "the request deadline was exceeded"⟩

end PublicError

inductive Ending
  | answered
  | refused (error : PublicError)
  | disconnected
deriving DecidableEq

/-- What the end of a request still has to drop, from the innermost on. -/
inductive Unwinding
  | execution
  | admission
  | guard
deriving DecidableEq

/-- Where `enforce_workload_policy` stands. A select that is polled has found
the stop token live; the handler's engine call runs on a thread of its own. -/
inductive Stage
  | arrived
  | entered
  | admitted
  | receiving (polled : Bool)
  | queued (polled : Bool)
  | starting (polled : Bool)
  | running (polled calling : Bool)
  | leaving (next : Unwinding) (ending : Ending)
  | ended (ending : Ending)
deriving DecidableEq

/-- A request, and what its handler can leave behind: the callback of an
upgrade, and an engine call that nobody awaits. -/
inductive Process
  | request (stage : Stage)
  | session (running calling : Bool)
  | engineCall (running : Bool)
deriving DecidableEq

inductive Event
  | enter
  | acquireAdmission
  | identify (representable : Bool)
  | checkStop
  | pend
  | bodyArrives
  | bodyOverflows
  | deadlineElapses
  | acquire
  | startHandler
  | callEngine
  | engineReturns
  | respond
  | upgrade
  | disconnect
  | unwind
  | closeSession
deriving DecidableEq

inductive ServeError
  | httpDrain
  | workloadShutdown
deriving DecidableEq

inductive Serve
  | serving
  | draining
  | drained (outcome : DrainOutcome)
  | cleaning (forced : Bool)
  | returned (error : Option ServeError)
  /-- The server ended without a shutdown signal. -/
  | abandoned
  | exited (error : Option ServeError)
deriving DecidableEq

structure Shared where
  execution : Semaphore
  admitted : Semaphore
  sessions : Semaphore
  gate : Gate
  stopped : Bool
  issued : Nat
  serve : Serve
deriving DecidableEq

def Shared.new (limits : ServerLimits) : Shared where
  execution := .new limits.maxConcurrentRequests
  admitted := .new (saturatingAdd limits.maxConcurrentRequests limits.queueCapacity)
  sessions := .new limits.maxConcurrentRequests
  gate := .new
  stopped := false
  issued := 0
  serve := .serving

/-- What `serve` does, the signal and the passing of time included. The token
is cancelled after the gate's lock is released, by whoever stopped it. -/
inductive Move
  | signal
  | observeDrain
  | drainTimesOut
  | serverCloses (timedOut : Bool)
  | cleanUp (completed : Bool)
  | serverEnds
  | cancelStop
deriving DecidableEq

namespace Shared

def serveMove (move : Move) (s : Shared) : Option Shared :=
  match move, s.serve with
  | .signal, .serving =>
      match s.gate.beginDrain.phase with
      | .stopped outcome => some { s with gate := s.gate.beginDrain, serve := .drained outcome }
      | _ => some { s with gate := s.gate.beginDrain, serve := .draining }
  | .observeDrain, .draining =>
      if s.stopped = true then some { s with serve := .drained s.gate.terminalOutcome } else none
  | .drainTimesOut, .draining => some { s with gate := s.gate.stopNow, serve := .drained .forced }
  | .serverCloses timedOut, .drained outcome =>
      if outcome = .forced ∨ timedOut = true then
        some { s with gate := s.gate.stopNow, serve := .cleaning true }
      else some { s with serve := .cleaning false }
  | .cleanUp completed, .cleaning forced =>
      some
        { s with
          serve := .returned (if forced = true then some .httpDrain
            else if completed = true then none else some .workloadShutdown) }
  | .serverEnds, .serving => some { s with gate := s.gate.stopNow, serve := .abandoned }
  | .cleanUp completed, .abandoned =>
      some { s with serve := .exited (if completed = true then none else some .workloadShutdown) }
  | .cancelStop, _ =>
      match s.gate.phase with
      | .stopped _ => some { s with stopped := true }
      | _ => none
  | _, _ => none

end Shared

def orphans (calling : Bool) : List Process := if calling = true then [.engineCall true] else []

def refuse (next : Unwinding) (error : PublicError) : Stage := .leaving next (.refused error)

/-- The step of a request from one access of the shared state to the next. -/
def enforceWorkloadPolicy (event : Event) (s : Shared) (stage : Stage) :
    Option (Shared × Stage × List Process) :=
  match event, stage with
  | .enter, .arrived =>
      match s.gate.tryEnter with
      | some gate => some ({ s with gate }, .entered, [])
      | none => some (s, .ended (.refused .cancelled), [])
  | .acquireAdmission, .entered =>
      match s.admitted.tryAcquire with
      | some admitted => some ({ s with admitted }, .admitted, [])
      | none => some (s, refuse .guard .overloaded, [])
  | .identify representable, .admitted =>
      if s.issued < u64Max then
        some
          ({ s with issued := s.issued + 1 }, if representable = true then .receiving false
          else refuse .admission .internal, [])
      else some (s, refuse .admission .internal, [])
  | .checkStop, .receiving false =>
      some (s, if s.stopped = true then refuse .admission .cancelled else .receiving true, [])
  | .bodyArrives, .receiving true => some (s, .queued false, [])
  | .bodyOverflows, .receiving true => some (s, refuse .admission .payloadTooLarge, [])
  | .deadlineElapses, .receiving true => some (s, refuse .admission .deadlineExceeded, [])
  | .pend, .receiving true => some (s, .receiving false, [])
  | .checkStop, .queued false =>
      some (s, if s.stopped = true then refuse .admission .cancelled else .queued true, [])
  | .acquire, .queued true =>
      if s.execution.closed = true then some (s, refuse .admission .cancelled, [])
      else
        match s.execution.tryAcquire with
        | some execution => some ({ s with execution }, .starting false, [])
        | none => none
  | .deadlineElapses, .queued true => some (s, refuse .admission .deadlineExceeded, [])
  | .pend, .queued true => some (s, .queued false, [])
  | .checkStop, .starting false =>
      some (s, if s.stopped = true then refuse .execution .cancelled else .starting true, [])
  | .deadlineElapses, .starting true => some (s, refuse .execution .deadlineExceeded, [])
  | .startHandler, .starting true => some (s, .running true false, [])
  | .checkStop, .running false calling =>
      if s.stopped = true then some (s, refuse .execution .cancelled, orphans calling)
      else some (s, .running true calling, [])
  | .deadlineElapses, .running true calling =>
      some (s, refuse .execution .deadlineExceeded, orphans calling)
  | .pend, .running true calling => some (s, .running false calling, [])
  | .callEngine, .running true false => some (s, .running true true, [])
  | .engineReturns, .running polled true => some (s, .running polled false, [])
  | .respond, .running true false => some (s, .leaving .execution .answered, [])
  | .upgrade, .running true false =>
      match s.sessions.tryAcquire with
      | some sessions =>
          some ({ s with sessions }, .leaving .execution .answered, [.session true false])
      | none => some (s, .leaving .execution .answered, [])
  -- The future is dropped where it waits, the handler's first.
  | .disconnect, .arrived => some (s, .ended .disconnected, [])
  | .disconnect, .receiving false => some (s, .leaving .admission .disconnected, [])
  | .disconnect, .queued false => some (s, .leaving .admission .disconnected, [])
  | .disconnect, .running false calling =>
      some (s, .leaving .execution .disconnected, orphans calling)
  | .unwind, .leaving .execution ending =>
      some ({ s with execution := s.execution.release }, .leaving .admission ending, [])
  | .unwind, .leaving .admission ending =>
      some ({ s with admitted := s.admitted.release }, .leaving .guard ending, [])
  | .unwind, .leaving .guard ending => some ({ s with gate := s.gate.leave }, .ended ending, [])
  | _, _ => none

def Process.advance (event : Event) (s : Shared) (p : Process) :
    Option (Shared × Process × List Process) :=
  match event, p with
  | event, .request stage =>
      (enforceWorkloadPolicy event s stage).map fun out => (out.1, .request out.2.1, out.2.2)
  | .callEngine, .session true false => some (s, .session true true, [])
  | .engineReturns, .session true true => some (s, .session true false, [])
  | .closeSession, .session true calling =>
      some ({ s with sessions := s.sessions.release }, .session false false, orphans calling)
  | .engineReturns, .engineCall true => some (s, .engineCall false, [])
  | _, _ => none

def admission : Program Shared Process Move Event where
  fresh := .request .arrived
  environment := Shared.serveMove
  advance := Process.advance

abbrev Host := System Shared Process

def Host.start (limits : ServerLimits) : Host := ⟨.new limits, []⟩

end ImpossibleVoice.Server
