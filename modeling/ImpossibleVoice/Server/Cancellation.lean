import Mathlib.Logic.Function.Basic
import ImpossibleVoice.Lib.Interleaving

namespace ImpossibleVoice.Server

open Lib

namespace Stopping

/-- A `Notify` is the number of its calls of `notify_waiters`: a waiter that was
made before the last of them is ready. -/
structure CancellationToken where
  cancelled : Bool
  notified : Nat
deriving DecidableEq

def CancellationToken.new : CancellationToken := ⟨false, 0⟩

inductive Cancel
  | swapping
  | notifying
  | returned (changed : Bool)
deriving DecidableEq

def CancellationToken.cancel (token : CancellationToken) :
    Cancel → Option (CancellationToken × Cancel)
  | .swapping =>
    if token.cancelled = true then some (token, .returned false)
      else some ({ token with cancelled := true }, .notifying)
  | .notifying => some ({ token with notified := token.notified + 1 }, .returned true)
  | .returned _ => none

inductive Cancelled
  | entering
  | created (seen : Nat)
  | pending (seen : Nat)
  | returned
deriving DecidableEq

def CancellationToken.poll (token : CancellationToken) : Cancelled → Option Cancelled
  | .entering => some (.created token.notified)
  | .created seen => if token.cancelled = true then some .returned else some (.pending seen)
  | .pending seen => if token.notified = seen then none else some .entering
  | .returned => none

inductive RequestStop
  | cancelled
  | deadlineExceeded
deriving DecidableEq

inductive Stopped
  | waiting (at' : Cancelled)
  | elapsed
  | returned (stop : RequestStop)
deriving DecidableEq

inductive Bridge
  | selecting (server request : Cancelled)
  | cancelling (at' : Cancel)
  | ended
deriving DecidableEq

inductive Task
  | idle
  | cancel (token : Nat) (at' : Cancel)
  | cancelled (token : Nat) (at' : Cancelled)
  | stopped (token : Nat) (deadline : Option Nat) (at' : Stopped)
  | bridge (server request : Nat) (at' : Bridge)
deriving DecidableEq

structure Shared where
  token : Nat → CancellationToken
  now : Nat

def Shared.setToken (s : Shared) (i : Nat) (token : CancellationToken) : Shared :=
  { s with token := Function.update s.token i token }

inductive Event
  | cancel (token : Nat)
  | cancelled (token : Nat)
  | stopped (token : Nat) (deadline : Option Nat)
  | context (server request : Nat)
  | drop
  | proceed
  | proceedRequest
  | elapse
deriving DecidableEq

def started : Event → Option Task
  | .cancel token => some (.cancel token .swapping)
  | .cancelled token => some (.cancelled token .entering)
  | .stopped token deadline => some (.stopped token deadline (.waiting .entering))
  | .context server request => some (.bridge server request (.selecting .entering .entering))
  | _ => none

/-- `timeout_at` polls the token first; it has elapsed once its deadline has and
the token was pending. -/
def Shared.stopped (s : Shared) (token : Nat) (deadline : Option Nat) (event : Event) :
    Stopped → Option Stopped
  | .waiting at' => match event with
    | .proceed =>
        if at' = .returned then some (.returned .cancelled)
          else ((s.token token).poll at').map .waiting
    | .elapse => match at', deadline with
      | .pending _, some deadline => if deadline ≤ s.now then some .elapsed else none
      | _, _ => none
    | _ => none
  | .elapsed => match event with
    | .proceed =>
        some
          (.returned (if (s.token token).cancelled = true then .cancelled else .deadlineExceeded))
    | _ => none
  | .returned _ => none

/-- Both branches of the `select!` are polled, in any order. -/
def Shared.bridge (s : Shared) (server request : Nat) (event : Event) :
    Bridge → Option (Shared × Bridge)
  | .selecting ofServer ofRequest => match event with
    | .proceed =>
      if ofServer = .returned then some (s, .cancelling .swapping)
      else ((s.token server).poll ofServer).map fun at' => (s, .selecting at' ofRequest)
    | .proceedRequest =>
      if ofRequest = .returned then some (s, .ended)
      else ((s.token request).poll ofRequest).map fun at' => (s, .selecting ofServer at')
    | _ => none
  | .cancelling at' => match event with
    | .proceed =>
        ((s.token request).cancel at').map fun out => (s.setToken request out.1, .cancelling out.2)
    | _ => none
  | .ended => none

def advance (event : Event) (s : Shared) : Task → Option (Shared × Task × List Task)
  | .idle => (started event).map fun task => (s, task, [])
  | .cancel token at' => match event with
    | .proceed =>
        ((s.token token).cancel at').map fun out =>
          (s.setToken token out.1, .cancel token out.2, [])
    | _ => none
  | .cancelled token at' => match event with
    | .proceed => ((s.token token).poll at').map fun at' => (s, .cancelled token at', [])
    | .drop => some (s, .idle, [])
    | _ => none
  | .stopped token deadline at' => match event with
    | .drop => some (s, .idle, [])
    | event =>
        (s.stopped token deadline event at').map fun at' => (s, .stopped token deadline at', [])
  | .bridge server request at' =>
      (s.bridge server request event at').map fun out => (out.1, .bridge server request out.2, [])

def Still (s : System Shared Task) : Prop :=
  ∀ event ∈ [Event.proceed, .proceedRequest, .elapse], ∀ task ∈ s.processes,
    (advance event s.shared task).isNone = true

instance (s : System Shared Task) : Decidable (Still s) := List.decidableBAll _ _

def tasks : Program Shared Task Unit Event :=
  ⟨.idle, fun _ s => some { s with now := s.now + 1 }, advance⟩

def start : System Shared Task := ⟨⟨fun _ => .new, 0⟩, []⟩

end Stopping

end ImpossibleVoice.Server
