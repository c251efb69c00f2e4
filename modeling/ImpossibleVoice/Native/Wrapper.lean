import ImpossibleVoice.Audio.Pcm
import ImpossibleVoice.Lib.Chars
import ImpossibleVoice.Lib.Conservation

namespace ImpossibleVoice.Native

open Lib Audio

inductive Kind
  | recognizer
  | synthesizer
deriving DecidableEq

abbrev Handle := Kind × Nat

/-- What lives behind the C API; a stream is listed with its recognizer. -/
structure Heap where
  loaded : Bool
  engines : List Handle
  streams : List (Nat × Nat)
  outputs : List Handle
deriving DecidableEq

/-- A call of a C function. What it returns may be null. A stream is named with
its recognizer also where C does not need it. -/
inductive Call
  | createEngine (kind : Kind) (result : Option Nat)
  | destroyEngine (engine : Handle)
  | createStream (engine : Nat) (result : Option Nat)
  | destroyStream (stream engine : Nat)
  | acceptWaveform (stream engine : Nat)
  | inputFinished (stream engine : Nat)
  | isReady (stream engine : Nat)
  | decode (stream engine : Nat)
  | getResult (stream engine : Nat) (result : Option Nat)
  | generate (engine : Nat) (result : Option Nat)
  | readOutput (output : Handle)
  | destroyOutput (output : Handle)
  | unload
deriving DecidableEq

namespace Heap

/-- All pointers are live, an engine is given back after its streams, and the
library is closed last. -/
def Legal (heap : Heap) : Call → Prop
  | .createEngine _ _ => heap.loaded = true
  | .destroyEngine engine =>
    heap.loaded = true ∧ engine ∈ heap.engines ∧
      ∀ stream ∈ heap.streams, (Kind.recognizer, stream.2) ≠ engine
  | .createStream engine _ => heap.loaded = true ∧ (Kind.recognizer, engine) ∈ heap.engines
  | .destroyStream stream engine | .acceptWaveform stream engine | .inputFinished stream engine =>
    heap.loaded = true ∧ (stream, engine) ∈ heap.streams
  | .isReady stream engine | .decode stream engine | .getResult stream engine _ =>
    heap.loaded = true ∧ (stream, engine) ∈ heap.streams ∧ (Kind.recognizer, engine) ∈ heap.engines
  | .generate engine _ => heap.loaded = true ∧ (Kind.synthesizer, engine) ∈ heap.engines
  | .readOutput output | .destroyOutput output => heap.loaded = true ∧ output ∈ heap.outputs
  | .unload => heap.loaded = true ∧ heap.engines = [] ∧ heap.streams = [] ∧ heap.outputs = []

instance (heap : Heap) : (call : Call) → Decidable (heap.Legal call)
  | .createEngine _ _ => inferInstanceAs (Decidable (heap.loaded = true))
  | .destroyEngine engine => inferInstanceAs (Decidable
      (heap.loaded = true ∧ engine ∈ heap.engines ∧
        ∀ stream ∈ heap.streams, (Kind.recognizer, stream.2) ≠ engine))
  | .createStream engine _ =>
      inferInstanceAs (Decidable (_ ∧ (Kind.recognizer, engine) ∈ heap.engines))
  | .destroyStream stream engine | .acceptWaveform stream engine | .inputFinished stream engine =>
    inferInstanceAs (Decidable (_ ∧ (stream, engine) ∈ heap.streams))
  | .isReady stream engine | .decode stream engine | .getResult stream engine _ =>
    inferInstanceAs
      (Decidable (_ ∧ (stream, engine) ∈ heap.streams ∧ (Kind.recognizer, engine) ∈ heap.engines))
  | .generate engine _ =>
      inferInstanceAs (Decidable (_ ∧ (Kind.synthesizer, engine) ∈ heap.engines))
  | .readOutput output | .destroyOutput output =>
      inferInstanceAs (Decidable (_ ∧ output ∈ heap.outputs))
  | .unload => inferInstanceAs (Decidable (_ ∧ _ ∧ _ ∧ _))

def after (heap : Heap) : Call → Heap
  | .createEngine kind (some pointer) => { heap with engines := (kind, pointer) :: heap.engines }
  | .destroyEngine engine => { heap with engines := heap.engines.erase engine }
  | .createStream engine (some pointer) =>
      { heap with streams := (pointer, engine) :: heap.streams }
  | .destroyStream stream engine => { heap with streams := heap.streams.erase (stream, engine) }
  | .getResult _ _ (some pointer) => { heap with outputs := (.recognizer, pointer) :: heap.outputs }
  | .generate _ (some pointer) => { heap with outputs := (.synthesizer, pointer) :: heap.outputs }
  | .destroyOutput output => { heap with outputs := heap.outputs.erase output }
  | .unload => { heap with loaded := false }
  | _ => heap

def Closed (heap : Heap) : Prop :=
  heap.loaded = false ∧ heap.engines = [] ∧ heap.streams = [] ∧ heap.outputs = []

end Heap

def maxDecodeSteps : Nat := 100000

/-- The count of an `Arc`: how many references there are besides one, or whether
the value is just being dropped. -/
inductive Arc
  | gone
  | live (others : Nat)
  | closing
deriving DecidableEq

def Arc.refs : Arc → Nat
  | gone | closing => 0
  | live others => others + 1

def Arc.closings : Arc → Nat
  | closing => 1
  | _ => 0

def Arc.retain : Arc → Arc
  | live others => live (others + 1)
  | arc => arc

def Arc.release : Arc → Arc
  | live 0 => closing
  | live (others + 1) => live others
  | arc => arc

/-- The counts of the loaded library and of the engines, their mutexes, and the
calls that broke the contract. -/
structure Shared where
  heap : Heap
  api : Arc
  engine : Handle → Arc
  locked : Handle → Bool
  faults : List Call

namespace Shared

def call (s : Shared) (call : Call) : Shared :=
  if s.heap.Legal call then { s with heap := s.heap.after call }
    else { s with faults := s.faults ++ [call] }

def setApi (s : Shared) (api : Arc) : Shared := { s with api }

def setEngine (s : Shared) (engine : Handle) (arc : Arc) : Shared :=
  { s with engine := Function.update s.engine engine arc }

def setLock (s : Shared) (engine : Handle) (locked : Bool) : Shared :=
  { s with locked := Function.update s.locked engine locked }

end Shared

inductive Creation
  | waiting
  | locked
  | failed
  | made (stream : Nat)
  | cloned (stream : Nat)
deriving DecidableEq

inductive Decoding
  | waiting
  | asking (left : Nat)
  | working (left : Nat)
  | leaving (drained : Bool)
deriving DecidableEq

/-- A result or audio that is fetched, copied and given back under the lock. -/
inductive Retrieval
  | waiting
  | asking
  | reading (output : Nat)
  | freeing (output : Nat)
  | leaving
deriving DecidableEq

inductive Owner
  | stream (stream engine : Nat) (finished : Bool)
  | synthesizer (engine : Nat)
deriving DecidableEq

def Owner.handle : Owner → Handle
  | stream _ engine _ => (.recognizer, engine)
  | synthesizer engine => (.synthesizer, engine)

/-- A value of the crate, in the hands of a thread, and where the thread is. -/
inductive Task
  | runtime
  | engine (engine : Handle)
  | creating (engine : Nat) (at' : Creation)
  | stream (stream engine : Nat) (finished : Bool)
  | decoding (stream engine : Nat) (finished : Bool) (at' : Decoding)
  | retrieving (owner : Owner) (at' : Retrieval)
  | dropping (engine : Handle)
  | destroying (engine : Handle)
  | releasing
  | unloading
  | ended
deriving DecidableEq

def Owner.idle : Owner → Task
  | .stream handle engine finished => .stream handle engine finished
  | .synthesizer engine => .engine (.synthesizer, engine)

/-- What a caller asks of a value, what C answers, or simply the next step. -/
inductive Event
  | clone
  | drop
  | openEngine (kind : Kind) (threads : Nat) (result : Option Nat)
  | createStream
  | accept (samples : List F32)
  | text
  | finish
  | generate (text : String) (speed : F32) (maxSamples : Nat)
  | pointer (result : Option Nat)
  | ready (yes : Bool)
  | proceed

def threadsValid (threads : Nat) : Bool := threads != 0 && decide (threads ≤ 32)

/-- The chunks that `accept` refuses. -/
def acceptRefuses (finished : Bool) (samples : List F32) : Bool :=
  finished || samples.isEmpty || decide (2 ^ 31 - 1 < samples.length) ||
    samples.any fun sample => !sample.isFinite

def generateRefuses (text : String) (speed : F32) (maxSamples : Nat) : Bool :=
  (trim text.toList).isEmpty || decide (16384 < text.utf8ByteSize) || !speed.isFinite ||
    !speed.within (1 / 2) 2 ||
    maxSamples == 0 || text.toList.contains '\x00'

def Fresh (live : List Nat) (result : Option Nat) : Prop := ∀ pointer ∈ result, pointer ∉ live

instance (live : List Nat) (result : Option Nat) : Decidable (Fresh live result) := by
  cases result with
  | none => exact isTrue fun _ h => by cases h
  | some pointer => exact decidable_of_iff (pointer ∉ live) (by simp [Fresh])

namespace Shared

def lock (s : Shared) (engine : Handle) (task : Task) : Option (Shared × Task × List Task) :=
  if s.locked engine = true then none else some (s.setLock engine true, task, [])

def unlock (s : Shared) (engine : Handle) (task : Task) (left : List Task) :
    Option (Shared × Task × List Task) :=
  some (s.setLock engine false, task, left)

def dropApi (s : Shared) : Option (Shared × Task × List Task) :=
  some (s.setApi s.api.release, if s.api = .live 0 then .unloading else .ended, [])

def dropEngine (s : Shared) (engine : Handle) : Option (Shared × Task × List Task) :=
  some
    (s.setEngine engine (s.engine engine).release, if s.engine engine = .live 0 then
    .destroying engine else .ended, [])

/-- `create_nemo_recognizer` and `create_vits_tts`, their paths being text. -/
def openEngine (s : Shared) (kind : Kind) (threads : Nat) (result : Option Nat) :
    Option (Shared × Task × List Task) :=
  if threadsValid threads = false then some (s, .runtime, [])
  else if Fresh (s.heap.engines.map Prod.snd) result then
    match result with
    | none => some (s.call (.createEngine kind none), .runtime, [])
    | some pointer =>
      some
        (((s.call (.createEngine kind (some pointer))).setApi s.api.retain).setEngine
        (kind, pointer) (.live 0),
        .runtime, [.engine (kind, pointer)])
  else none

def create (s : Shared) (engine : Nat) (event : Event) :
    Creation → Option (Shared × Task × List Task)
  | .waiting => match event with
    | .proceed => s.lock (.recognizer, engine) (.creating engine .locked)
    | _ => none
  | .locked => match event with
    | .pointer result =>
      if Fresh (s.heap.streams.map Prod.fst) result then
        some (s.call (.createStream engine result), .creating engine (match result with
          | none => .failed
          | some pointer => .made pointer), [])
      else none
    | _ => none
  | .failed => match event with
    | .proceed => s.unlock (.recognizer, engine) (.engine (.recognizer, engine)) []
    | _ => none
  | .made stream => match event with
    | .proceed =>
        some
          (s.setEngine (.recognizer, engine) (s.engine (.recognizer, engine)).retain,
          .creating engine (.cloned stream), [])
    | _ => none
  | .cloned stream => match event with
    | .proceed =>
        s.unlock (.recognizer, engine) (.engine (.recognizer, engine)) [.stream stream engine false]
    | _ => none

def useStream (s : Shared) (stream engine : Nat) (finished : Bool) :
    Event → Option (Shared × Task × List Task)
  | .accept samples =>
    if acceptRefuses finished samples = true then some (s, .stream stream engine finished, [])
    else some
      (s.call (.acceptWaveform stream engine), .decoding stream engine finished .waiting, [])
  | .text => some (s, .retrieving (.stream stream engine finished) .waiting, [])
  | .finish =>
    if finished = true then some (s, .stream stream engine finished, [])
    else some (s.call (.inputFinished stream engine), .decoding stream engine true .waiting, [])
  | .drop => some (s.call (.destroyStream stream engine), .dropping (.recognizer, engine), [])
  | _ => none

/-- After a drained `finish` the text follows; only `finish` decodes with the flag set. -/
def decode (s : Shared) (stream engine : Nat) (finished : Bool) (event : Event) :
    Decoding → Option (Shared × Task × List Task)
  | .waiting => match event with
    | .proceed =>
        s.lock (.recognizer, engine) (.decoding stream engine finished (.asking maxDecodeSteps))
    | _ => none
  | .asking 0 => match event with
    | .proceed => some (s, .decoding stream engine finished (.leaving false), [])
    | _ => none
  | .asking (left + 1) => match event with
    | .ready yes => some (s.call (.isReady stream engine),
        .decoding stream engine finished (if yes = true then .working left else .leaving true), [])
    | _ => none
  | .working left => match event with
    | .proceed =>
        some (s.call (.decode stream engine), .decoding stream engine finished (.asking left), [])
    | _ => none
  | .leaving drained => match event with
    | .proceed => s.unlock (.recognizer, engine)
        (if drained = true ∧ finished = true then
          .retrieving (.stream stream engine finished) .waiting
          else .stream stream engine finished) []
    | _ => none

def fetch (owner : Owner) (result : Option Nat) : Call :=
  match owner with
  | .stream stream engine _ => .getResult stream engine result
  | .synthesizer engine => .generate engine result

def retrieve (s : Shared) (owner : Owner) (event : Event) :
    Retrieval → Option (Shared × Task × List Task)
  | .waiting => match event with
    | .proceed => s.lock owner.handle (.retrieving owner .asking)
    | _ => none
  | .asking => match event with
    | .pointer result =>
      if Fresh (s.heap.outputs.map Prod.snd) result then
        some (s.call (fetch owner result), .retrieving owner (match result with
          | none => .leaving
          | some pointer => .reading pointer), [])
      else none
    | _ => none
  | .reading output => match event with
    | .proceed =>
        some
          (s.call (.readOutput (owner.handle.1, output)), .retrieving owner (.freeing output), [])
    | _ => none
  | .freeing output => match event with
    | .proceed =>
        some (s.call (.destroyOutput (owner.handle.1, output)), .retrieving owner .leaving, [])
    | _ => none
  | .leaving => match event with
    | .proceed => s.unlock owner.handle owner.idle []
    | _ => none

def useEngine (s : Shared) (engine : Handle) : Event → Option (Shared × Task × List Task)
  | .clone => some (s.setEngine engine (s.engine engine).retain, .engine engine, [.engine engine])
  | .drop => s.dropEngine engine
  | .createStream =>
      if engine.1 = .recognizer then some (s, .creating engine.2 .waiting, []) else none
  | .generate text speed maxSamples =>
    if engine.1 = .synthesizer then
      if generateRefuses text speed maxSamples = true then some (s, .engine engine, [])
      else some (s, .retrieving (.synthesizer engine.2) .waiting, [])
    else none
  | _ => none

def useRuntime (s : Shared) : Event → Option (Shared × Task × List Task)
  | .clone => some (s.setApi s.api.retain, .runtime, [.runtime])
  | .openEngine kind threads result => s.openEngine kind threads result
  | .drop => s.dropApi
  | _ => none

end Shared

def advance (event : Event) (s : Shared) : Task → Option (Shared × Task × List Task)
  | .runtime => s.useRuntime event
  | .engine engine => s.useEngine engine event
  | .creating engine at' => s.create engine event at'
  | .stream stream engine finished => s.useStream stream engine finished event
  | .decoding stream engine finished at' => s.decode stream engine finished event at'
  | .retrieving owner at' => s.retrieve owner event at'
  | .dropping engine => match event with
    | .proceed => s.dropEngine engine
    | _ => none
  | .destroying engine => match event with
    | .proceed => some ((s.call (.destroyEngine engine)).setEngine engine .gone, .releasing, [])
    | _ => none
  | .releasing => match event with
    | .proceed => s.dropApi
    | _ => none
  | .unloading => match event with
    | .proceed => some ((s.call .unload).setApi .gone, .ended, [])
    | _ => none
  | .ended => none

def wrapper : Program Shared Task Empty Event := ⟨.ended, fun move _ => move.elim, advance⟩

def start : System Shared Task :=
  ⟨⟨⟨true, [], [], []⟩, .live 0, fun _ => .gone, fun _ => false, []⟩, [.runtime]⟩

end ImpossibleVoice.Native
