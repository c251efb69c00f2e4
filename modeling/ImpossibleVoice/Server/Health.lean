import ImpossibleVoice.Server.Cleanup

namespace ImpossibleVoice.Server.Health

open Lib
open Cleanup (ProcessState)

inductive ReadinessReason
  | processNotRunning
  | componentUnavailable
deriving DecidableEq

def ReadinessReason.asStr : ReadinessReason → String
  | processNotRunning => "process_not_running"
  | componentUnavailable => "component_unavailable"

structure HealthSnapshot where
  live : Bool
  ready : Bool
  reason : Option ReadinessReason
deriving DecidableEq

structure HealthRegistry where
  process : ProcessState
  components : List (String × Bool)

namespace HealthRegistry

def new : HealthRegistry := ⟨.starting, []⟩

def setProcess (process : ProcessState) (r : HealthRegistry) : HealthRegistry := { r with process }

def registerComponent (name : String) (r : HealthRegistry) : HealthRegistry :=
  if (r.components.lookup name).isSome = true then r
    else { r with components := r.components ++ [(name, false)] }

def setComponentReady (name : String) (ready : Bool) (r : HealthRegistry) : HealthRegistry × Bool :=
  if (r.components.lookup name).isSome = true then
    ({ r with
      components := r.components.map fun entry => if entry.1 = name then (name, ready) else entry },
      true)
  else (r, false)

def snapshot (r : HealthRegistry) : HealthSnapshot :=
  let processReady := r.process == .running
  let ready := processReady && r.components.all Prod.snd
  ⟨r.process != .stopped, ready,
    if ready = true then none else if processReady = false then some .processNotRunning
      else some .componentUnavailable⟩

end HealthRegistry

structure HealthBody where
  status : String
  reason : Option String
deriving DecidableEq

def live (r : HealthRegistry) : Nat × HealthBody :=
  (if r.snapshot.live = true then 200
    else 503, ⟨if r.snapshot.live = true then "live" else "stopped", none⟩)

def ready (r : HealthRegistry) : Nat × HealthBody :=
  (if r.snapshot.ready = true then 200 else 503,
    ⟨if r.snapshot.ready = true then "ready"
      else "not_ready", r.snapshot.reason.map ReadinessReason.asStr⟩)

structure Capabilities where
  ready : Bool
  speechToText : Bool
  textToSpeech : Bool
  realtimeWebsocket : Bool
  grpc : Bool
  mcp : Bool
  offlineAfterSetup : Bool
deriving DecidableEq

def capabilities (r : HealthRegistry) : Capabilities :=
  let ready := r.snapshot.ready
  ⟨ready, ready, ready, ready, ready, ready, true⟩

def models (r : HealthRegistry) : List String :=
  if r.snapshot.ready = true then ["impossible-voice-stt", "impossible-voice-tts"] else []

def componentName : String := "voice_engines"

def withLimits (available : Bool) : HealthRegistry :=
  (((HealthRegistry.new.registerComponent componentName).setComponentReady componentName
    available).1).setProcess .running

theorem components_withLimits (available : Bool) :
    (withLimits available).components = [(componentName, available)] := by
  cases available <;> decide

theorem snapshot_setProcess (available : Bool) (process : ProcessState) :
    ((withLimits available).setProcess process).snapshot =
      ⟨process != .stopped, process == .running &&
      available, if (process == .running && available) = true then none
      else if (process == .running) = false then some .processNotRunning
      else some .componentUnavailable⟩ := by
  simp only [HealthRegistry.snapshot, HealthRegistry.setProcess, components_withLimits,
    List.all_cons, List.all_nil, Bool.and_true]

def told (available : Bool) (s : Cleanup.State) : HealthRegistry :=
  (withLimits available).setProcess s.process

structure ToldTruly (available : Bool) (s : Cleanup.State) : Prop where
  ready : ready (told available s) = (200, ⟨"ready", none⟩) ↔ s.host = .selecting ∧ available = true
  admits : (Health.ready (told available s)).1 = 200 → s.gate.phase = .accepting
  draining : Health.ready (told available s) = (503, ⟨"not_ready", some "process_not_running"⟩) ↔
    s.host ≠ .selecting
  unavailable : Health.ready (told available s) =
    (503, ⟨"not_ready", some "component_unavailable"⟩) ↔
    s.host = .selecting ∧ available = false
  live : live (told available s) = (503, ⟨"stopped", none⟩) ↔
    ∃ deadline path completed, s.host = .returned deadline path completed
  capabilities : (capabilities (told available s)).ready = true ↔
    (Health.ready (told available s)).1 = 200
  models : models (told available s) = [] ↔ (Health.ready (told available s)).1 ≠ 200

theorem process_eq_running {host : Cleanup.Host} : host.process = .running ↔ host = .selecting := by
  cases host <;> simp [Cleanup.Host.process]

theorem process_eq_stopped {host : Cleanup.Host} :
    host.process = .stopped ↔
      ∃ deadline path completed, host = .returned deadline path completed := by
  cases host <;> simp [Cleanup.Host.process]

theorem ready_told (available : Bool) {s : Cleanup.State} (hs : Cleanup.Invariant s) :
    ready (told available s) = if s.host = .selecting then if available = true then
      (200, ⟨"ready", none⟩) else (503, ⟨"not_ready", some "component_unavailable"⟩)
      else (503, ⟨"not_ready", some "process_not_running"⟩) := by
  rw [ready, told, snapshot_setProcess, hs.process]
  by_cases hhost : s.host = .selecting
  · rw [if_pos hhost, hhost]
    cases available <;> rfl
  · have hnot : (s.host.process == .running) = false := by
      rw [beq_eq_false_iff_ne]
      exact fun h => hhost (process_eq_running.mp h)
    rw [if_neg hhost, hnot]
    rfl

theorem live_told (available : Bool) (s : Cleanup.State) : live (told available s) =
    if s.process = .stopped then (503, ⟨"stopped", none⟩) else (200, ⟨"live", none⟩) := by
  rw [live, told, snapshot_setProcess]
  cases s.process <;> rfl

theorem snapshot_ready_told (available : Bool) (s : Cleanup.State) :
    (told available s).snapshot.ready = true ↔ (ready (told available s)).1 = 200 := by
  rw [ready]
  by_cases h : (told available s).snapshot.ready = true <;> simp [h]

theorem toldTruly (available : Bool) {s : Cleanup.State} (hs : Cleanup.Invariant s) :
    ToldTruly available s := by
  refine ⟨?_, fun h => ?_, ?_, ?_, ?_, snapshot_ready_told available s, ?_⟩
  · rw [ready_told available hs]
    by_cases hhost : s.host = .selecting <;> cases available <;> simp [hhost]
  · rw [ready_told available hs] at h
    by_cases hhost : s.host = .selecting
    · have hadmits := hs.admits
      rw [hhost] at hadmits
      exact hadmits
    · simp [hhost] at h
  · rw [ready_told available hs]
    by_cases hhost : s.host = .selecting <;> cases available <;> simp [hhost]
  · rw [ready_told available hs]
    by_cases hhost : s.host = .selecting <;> cases available <;> simp [hhost]
  · rw [live_told, ← process_eq_stopped, hs.process]
    by_cases hstopped : s.host.process = .stopped <;> simp [hstopped]
  · rw [ne_eq, ← snapshot_ready_told, models]
    by_cases h : (told available s).snapshot.ready = true <;> simp [h]

theorem ready_of_selecting {available : Bool} {s : Cleanup.State} (hs : Cleanup.Invariant s)
    (h : (ready (told available s)).1 = 200) : s.host = .selecting ∧ available = true := by
  refine (toldTruly available hs).ready.mp ?_
  rw [ready_told available hs] at h ⊢
  split at h
  · next hhost =>
      rw [if_pos hhost]
      split at h
      · next havailable => rw [if_pos havailable]
      · cases h
  · cases h

theorem host_of_step {timeout : Nat} {label : Cleanup.Label} {s t : Cleanup.State}
    (hs : Cleanup.Invariant s) (hstep : Cleanup.step timeout label s = some t)
    (ht : t.host = .selecting) : s.host = .selecting := by
  have hinvariant := Cleanup.step_invariant hs hstep
  have hafter : t.process = .running := by
    rw [hinvariant.process, ht]
    rfl
  rcases Cleanup.step_onward hs hstep with h | ⟨-, h⟩ | ⟨-, h⟩
  · rw [hafter, hs.process] at h
    exact process_eq_running.mp h.symm
  · rw [hafter] at h
    cases h
  · rw [hafter] at h
    cases h

/-- In every run of a server, its health endpoints tell the truth: it is ready just
while it serves with its engines loaded, and then it admits requests; else they say
why not; it is live until `serve` has returned; and once it is not ready, it never
is again. -/
theorem health_is_truthful (available : Bool) (timeout now : Nat) (labels : List Cleanup.Label)
    (s : Cleanup.State) (h : Runs (Cleanup.step timeout) (.start now) labels s) :
    ToldTruly available s ∧ ∀ more t, Runs (Cleanup.step timeout) s more t →
    (ready (told available t)).1 = 200 → (ready (told available s)).1 = 200 := by
  have hs := Cleanup.runs_invariant h
  refine ⟨toldTruly available hs, fun more t hmore hready => ?_⟩
  have hback : Cleanup.Invariant t ∧ (t.host = .selecting → s.host = .selecting) :=
    Runs.invariant
      (P := fun _ t => Cleanup.Invariant t ∧ (t.host = .selecting → s.host = .selecting))
      ⟨hs, fun h => h⟩
      (fun _ _ _ _ hu hstep =>
        ⟨Cleanup.step_invariant hu.1 hstep, fun ht => hu.2 (host_of_step hu.1 hstep ht)⟩) hmore
  have hthen := ready_of_selecting hback.1 hready
  rw [(toldTruly available hs).ready.mpr ⟨hback.2 hthen.1, hthen.2⟩]

/-- A request is let in, the signal is taken while it is out, the request ends
and the listener after it, and `serve` returns. -/
def wholeLife : List Cleanup.Label :=
  [.enter, .tick 5, .signal, .takeSignal, .host false, .leave, .cancelStop, .host false,
    .listenerEnds false, .host false, .host false, .host true, .host false]

def afterLife : Cleanup.State :=
  ⟨5, true, some ⟨5, false⟩, ⟨.stopped .graceful, 0⟩, true, false, .stopped, false,
    .returned 25 (.signal .graceful false) true, [⟨5, true⟩], [⟨5, true⟩]⟩

theorem a_whole_life_is_told : (ready (told true (.start 0))).1 = 200 ∧ ToldTruly true afterLife ∧
    (live (told true afterLife)).1 = 503 ∧
    ∀ more t, Runs (Cleanup.step 20) afterLife more t → (ready (told true t)).1 ≠ 200 := by
  obtain ⟨htruly, hlater⟩ := health_is_truthful true 20 0 wholeLife afterLife (runs_iff_run.mpr rfl)
  have hover : (ready (told true afterLife)).1 ≠ 200 := by decide
  exact ⟨by decide, htruly, by decide,
    fun more t hmore hready => hover (hlater more t hmore hready)⟩

end ImpossibleVoice.Server.Health
