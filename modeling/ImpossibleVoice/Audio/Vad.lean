import ImpossibleVoice.Audio.Pcm
import ImpossibleVoice.Lib.Effect

namespace ImpossibleVoice.Audio

open Lib

/-- A threshold with the frames whose root mean square reaches it. The code sums,
divides and takes the root in `f64`, and that rounding is left open here. -/
structure Threshold where
  value : F32
  reached : List ℚ → Bool

structure VadConfig where
  rmsThreshold : Threshold
  minSpeechMs : UInt32
  trailingSilenceMs : UInt32
  maxUtteranceMs : UInt32

/-- The threshold is the `f32` nearest to 0.015. -/
def VadConfig.default (reached : List ℚ → Bool) : VadConfig :=
  ⟨⟨.finite (16106127 / 1073741824), reached⟩, 120, 600, 30000⟩

/-- A threshold of zero, which every frame reaches, and an utterance of at most two milliseconds. -/
def VadConfig.brief : VadConfig := ⟨⟨.finite 0, fun _ => true⟩, 1, 1, 2⟩

inductive VadEvent
  | none
  | started
  | ended
deriving DecidableEq

@[ext] structure EnergyVad where
  config : VadConfig
  sampleRate : Nat
  speechRun : Nat
  silenceRun : Nat
  utteranceSamples : Nat
  active : Bool

namespace EnergyVad

def new (config : VadConfig) (sampleRate : Nat) : Except AudioError EnergyVad := do
  validateRate sampleRate
  if config.rmsThreshold.value.isFinite = false ∨ config.rmsThreshold.value.within 0 1 = false ∨
      config.minSpeechMs = 0 ∨ config.trailingSilenceMs = 0 ∨
        config.maxUtteranceMs < config.minSpeechMs then
    .error ⟨"voice activity configuration is invalid"⟩
  else .ok ⟨config, sampleRate, 0, 0, 0, false⟩

theorem new_eq_ok {config : VadConfig} {sampleRate : Nat} (hrate : validateRate sampleRate = .ok ())
    (hvalid :
      ¬ (config.rmsThreshold.value.isFinite = false ∨ config.rmsThreshold.value.within 0 1 = false ∨
      config.minSpeechMs = 0 ∨ config.trailingSilenceMs = 0 ∨
        config.maxUtteranceMs < config.minSpeechMs)) :
    new config sampleRate = .ok ⟨config, sampleRate, 0, 0, 0, false⟩ := by
  rw [new, hrate]
  exact if_neg hvalid

theorem new_default (reached : List ℚ → Bool) {sampleRate : Nat}
    (hrate : validateRate sampleRate = .ok ()) :
    new (.default reached) sampleRate = .ok ⟨.default reached, sampleRate, 0, 0, 0, false⟩ := by
  have hwithin : (F32.finite (16106127 / 1073741824)).within 0 1 = true := by decide +kernel
  apply new_eq_ok hrate
  simp only [VadConfig.default, F32.isFinite, hwithin, Bool.true_eq_false, false_or]
  decide

theorem new_brief {sampleRate : Nat} (hrate : validateRate sampleRate = .ok ()) :
    new .brief sampleRate = .ok ⟨.brief, sampleRate, 0, 0, 0, false⟩ :=
  new_eq_ok hrate (by decide +kernel)

def samplesFor (vad : EnergyVad) (milliseconds : UInt32) : Nat :=
  saturatingMul 64 vad.sampleRate milliseconds.toNat / 1000

def reset (vad : EnergyVad) : EnergyVad :=
  { vad with speechRun := 0, silenceRun := 0, utteranceSamples := 0, active := false }

def voiced (vad : EnergyVad) (samples : List ℚ) : Bool := vad.config.rmsThreshold.reached samples

def count (vad : EnergyVad) (voiced : Bool) (len : Nat) : EnergyVad :=
  if voiced then { vad with speechRun := saturatingAdd 64 vad.speechRun len, silenceRun := 0 }
  else if vad.active then
    { vad with speechRun := 0, silenceRun := saturatingAdd 64 vad.silenceRun len }
  else { vad with speechRun := 0 }

def transition (vad : EnergyVad) (len : Nat) : VadEvent × EnergyVad :=
  if vad.active then
    let vad := { vad with utteranceSamples := saturatingAdd 64 vad.utteranceSamples len }
    if vad.samplesFor vad.config.trailingSilenceMs ≤ vad.silenceRun ∨
        vad.samplesFor vad.config.maxUtteranceMs ≤ vad.utteranceSamples then (.ended, vad.reset)
    else (.none, vad)
  else if vad.samplesFor vad.config.minSpeechMs ≤ vad.speechRun then
    (.started, { vad with active := true, utteranceSamples := vad.speechRun })
  else (.none, vad)

def step (vad : EnergyVad) (samples : List ℚ) : VadEvent × EnergyVad :=
  (vad.count (vad.voiced samples) samples.length).transition samples.length

def process (samples : List F32) : EStateM AudioError EnergyVad VadEvent := do
  failIf (samples = [] ∨ samples.any (fun s => !s.isFinite)) ⟨"voice activity frame is invalid"⟩
  let _ ← fromExcept (okOr (tryNarrow 32 samples.length) "voice activity frame is invalid")
  let vad ← get
  let (event, next) := vad.step (samples.map F32.value)
  set next
  pure event

/-- A non-empty frame of finite samples is never refused. -/
theorem run_process (vad : EnergyVad) {frame : List ℚ} (hne : frame ≠ [])
    (hlen : frame.length < 2 ^ 32) :
    (process (frame.map .finite)).run vad = .ok (vad.step frame).1 (vad.step frame).2 := by
  have hvalid :
      ¬ (frame.map F32.finite = [] ∨ (frame.map F32.finite).any (fun s => !s.isFinite) = true) := by
    simp [hne, F32.isFinite]
  rw [process, run_bind_of_ok (run_failIf_neg hvalid _ _), List.length_map, tryNarrow_of_lt hlen,
    okOr_some,
    run_bind_of_ok (run_fromExcept_ok _ _), run_bind_of_ok (EStateM.run_get _),
      F32.map_value_finite]
  rfl

def events (vad : EnergyVad) : List (List ℚ) → List VadEvent
  | [] => []
  | frame :: frames => (vad.step frame).1 :: events (vad.step frame).2 frames

def after (vad : EnergyVad) (frames : List (List ℚ)) : EnergyVad :=
  frames.foldl (fun vad frame => (vad.step frame).2) vad

theorem events_append (vad : EnergyVad) (front back : List (List ℚ)) :
    vad.events (front ++ back) = vad.events front ++ (vad.after front).events back := by
  induction front generalizing vad with
  | nil => rfl
  | cons frame front ih => simp only [List.cons_append, events, ih, after, List.foldl_cons]

theorem events_length (vad : EnergyVad) (frames : List (List ℚ)) :
    (vad.events frames).length = frames.length := by
  induction frames generalizing vad with
  | nil => rfl
  | cons frame frames ih => simp only [events, List.length_cons, ih]

end EnergyVad

end ImpossibleVoice.Audio
