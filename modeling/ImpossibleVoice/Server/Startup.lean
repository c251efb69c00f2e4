import ImpossibleVoice.Server.Health
import ImpossibleVoice.Server.Inspection
import ImpossibleVoice.Server.Resolution

namespace ImpossibleVoice.Server

open Lib Artifacts
open Config (ConfigError DoctorReport RuntimeConfig ServerOptions Surroundings)

inductive Listener
  | http
  | grpc
deriving DecidableEq

inductive CommandStop
  | config (error : ConfigError)
  | load (stop : LoadStop)
  | bind (listener : Listener)
deriving DecidableEq

structure Network where
  http : Bool
  grpc : Bool

abbrev Command := EStateM CommandStop Machine

def resolved (result : Except ConfigError RuntimeConfig) : Command RuntimeConfig :=
  match result with
  | .ok config => pure config
  | .error error => throw (.config error)

def composed {α : Type} (p : Composition α) : Command α := fun m =>
  match p.run m with
  | .ok a t => .ok a t
  | .error stop t => .error (.load stop) t

def loaded (p : Composition VoiceEngines) : Command (Option VoiceEngines) := fun m =>
  match p.run m with
  | .ok engines t => .ok (some engines) t
  | .error (.failed _) t => .ok none t
  | .error .stopped t => .error (.load .stopped) t

def storeRoot (platform : Platform) (config : RuntimeConfig) : List Component :=
  platform.components config.artifactRoot

section Commands

variable (platform : Platform) (env : Environment) (lib : Libraries) (host : NativeHost)
  (manifest : CuratedManifest) (options : ServerOptions)
  (surroundings : Surroundings)

def doctor : Command (DoctorReport × EngineInspection) := do
  let config ← resolved (options.resolve surroundings)
  let inspection ← composed
      (inspectEngines platform env lib host (storeRoot platform config) manifest)
  pure (config.doctorReport, inspection)

/-- What `serve` has once it listens: its configuration, its engines, and the
health of the server around them. -/
def serve (network : Network) :
    Command (RuntimeConfig × Option VoiceEngines × Health.HealthRegistry) := do
  let config ← resolved (options.resolve surroundings)
  let engines ← loaded (VoiceEngines.load platform env lib host (storeRoot platform config) manifest
    config.limits.maxConcurrentRequests.value.toNat)
  failIf (network.http = false) (.bind .http)
  failIf (engines.isSome = true ∧ network.grpc = false) (.bind .grpc)
  pure (config, engines, Health.withLimits engines.isSome)

end Commands

variable {platform : Platform} {α : Type} {env : Environment} {lib : Libraries} {host : NativeHost}
  {manifest : CuratedManifest} {options : ServerOptions}
  {surroundings : Surroundings} {m : Machine}

def Returns (p : Command α) (m : Machine) (a : α) : Prop := ∃ k, p.run m = .ok a (m.at k)

def Ends (p : Command α) (m : Machine) (stop : CommandStop) : Prop :=
  ∃ k, p.run m = .error stop (m.at k)

theorem Returns.bind {β : Type} {p : Command α} {f : α → Command β} {a : α} {b : β}
    (hp : Returns p m a) (hf : ∀ k, Returns (f a) (m.at k) b) : Returns (p >>= f) m b := by
  obtain ⟨k, hk⟩ := hp
  obtain ⟨l, hl⟩ := hf k
  exact ⟨l, by rw [run_bind_of_ok hk, hl, Machine.at_at]⟩

theorem Returns.ends {β : Type} {p : Command α} {f : α → Command β} {a : α} {stop : CommandStop}
    (hp : Returns p m a) (hf : ∀ k, Ends (f a) (m.at k) stop) : Ends (p >>= f) m stop := by
  obtain ⟨k, hk⟩ := hp
  obtain ⟨l, hl⟩ := hf k
  exact ⟨l, by rw [run_bind_of_ok hk, hl, Machine.at_at]⟩

theorem returns_failIf {P : Prop} [Decidable P] {stop : CommandStop} (h : ¬ P) :
    Returns (failIf P stop) m () :=
  ⟨m.clock, run_failIf_neg h _ _⟩

theorem ends_failIf {P : Prop} [Decidable P] {f : Unit → Command α} {stop : CommandStop} (h : P) :
    Ends (failIf P stop >>= f) m stop :=
  ⟨m.clock, run_bind_of_error (run_failIf_pos h _ _)⟩

theorem returns_pure (a : α) (m : Machine) : Returns (pure a) m a := ⟨m.clock, rfl⟩

theorem returns_resolved {config : RuntimeConfig} {f : RuntimeConfig → Command α} {a : α}
    (h : Returns (f config) m a) : Returns (resolved (.ok config) >>= f) m a :=
  h

theorem returns_composed {p : Composition α} {a : α} (h : Gives p m a) :
    Returns (composed p) m a := by
  obtain ⟨k, hk⟩ := h
  exact ⟨k, by rw [EStateM.run, composed, hk]⟩

theorem returns_loaded_some {p : Composition VoiceEngines} {engines : VoiceEngines}
    (h : Gives p m engines) : Returns (loaded p) m (some engines) := by
  obtain ⟨k, hk⟩ := h
  exact ⟨k, by rw [EStateM.run, loaded, hk]⟩

theorem returns_loaded_none {p : Composition VoiceEngines} {message : String}
    (h : Refuses p m message) : Returns (loaded p) m none := by
  obtain ⟨k, hk⟩ := h
  exact ⟨k, by rw [EStateM.run, loaded, hk]⟩

theorem concurrency_ne_zero (config : RuntimeConfig) :
    config.limits.maxConcurrentRequests.value.toNat ≠ 0 :=
  fun h =>
  config.limits.maxConcurrentRequests.ne_zero (UInt64.toNat_inj.mp h)

theorem both_refuse {error : ConfigError} (h : options.resolve surroundings = .error error)
    (m n : Machine) :
    (doctor platform env lib host manifest options surroundings).run m = .error (.config error) m ∧
    ∀ network,
      (serve platform env lib host manifest options surroundings network).run n =
      .error (.config error) n := by
  rw [doctor, h]
  refine ⟨rfl, fun network => ?_⟩
  rw [serve, h]
  rfl

theorem agrees_loaded {root : List Component} {maxConcurrent : Nat}
    {inspection : EngineInspection}
    (h : Agrees platform env lib host root manifest maxConcurrent m inspection) :
    ∃ engines,
      Returns (loaded (VoiceEngines.load platform env lib host root manifest maxConcurrent)) m
      engines ∧ engines.isSome = inspection.isReady ∧
    ∀ loaded ∈ engines, loaded.Bounded maxConcurrent := by
  rw [Agrees] at h
  split at h
  · obtain ⟨hready, engines, hgives, hbounded⟩ := h
    refine ⟨some engines, returns_loaded_some hgives, hready.symm, fun _ hmem => ?_⟩
    cases hmem
    exact hbounded
  · obtain ⟨hready, hrefuses⟩ := h
    exact ⟨none, returns_loaded_none hrefuses, hready.symm, fun _ hmem => by cases hmem⟩

theorem ready_withLimits (available : Bool) :
    (Health.ready (Health.withLimits available)).1 = 200 ↔ available = true := by
  cases available <;> decide

/-- The first of the addresses that a server with or without engines cannot have. -/
def Network.missing (network : Network) (engines : Bool) : Option Listener :=
  if network.http = false then some .http
  else if engines = true ∧ network.grpc = false then some .grpc
  else none

def Foretells (serve : Command (RuntimeConfig × Option VoiceEngines × Health.HealthRegistry))
    (network : Network) (m : Machine) (report : DoctorReport) (inspection : EngineInspection) :
    Prop :=
  match network.missing inspection.isReady with
  | some listener => Ends serve m (.bind listener)
  | none =>
      ∃ config engines health, Returns serve m (config, engines, health) ∧
        config.doctorReport = report ∧
      (∀ loaded ∈ engines, loaded.Bounded report.maxConcurrentRequests) ∧
      ((Health.ready health).1 = 200 ↔ inspection.isReady = true)

theorem foretells_serve {config : RuntimeConfig} {inspection : EngineInspection}
    (hconfig : options.resolve surroundings = .ok config)
    (hagrees : Agrees platform env lib host (storeRoot platform config) manifest
      config.limits.maxConcurrentRequests.value.toNat m inspection)
    (network : Network) :
    Foretells (serve platform env lib host manifest options surroundings network) network m
      config.doctorReport inspection := by
  obtain ⟨engines, hloaded, hsome, hbounded⟩ := agrees_loaded hagrees
  rw [Foretells, ← hsome, serve, hconfig]
  cases hhttp : network.http with
  | false =>
      rw [Network.missing, if_pos hhttp]
      exact hloaded.ends fun k => ends_failIf rfl
  | true =>
      rw [Network.missing, if_neg (by rw [hhttp]; exact Bool.false_ne_true.symm)]
      by_cases hgrpc : engines.isSome = true ∧ network.grpc = false
      · rw [if_pos hgrpc]
        exact hloaded.ends fun k => (returns_failIf Bool.false_ne_true.symm).ends fun l =>
          ends_failIf hgrpc
      · rw [if_neg hgrpc]
        refine ⟨config, engines, Health.withLimits engines.isSome, ?_, rfl, hbounded,
          ready_withLimits _⟩
        exact hloaded.bind fun k => (returns_failIf Bool.false_ne_true.symm).bind fun l =>
          (returns_failIf hgrpc).bind fun _ => returns_pure _ _

/-- While requests to the store get through, `doctor` foretells `serve`: both refuse
a configuration with the same error; else `serve` ends because it cannot have an
address that it needs (that of gRPC only with engines), or it comes up with just the
limits that `doctor` reports, and it is ready at once if and only if `doctor` has
found the engines ready. -/
theorem doctor_foretells_serve (h : Permitted env) (haccepted : Accepted platform manifest)
    (hclient : host.client = true) (lib : Libraries) (options : ServerOptions)
    (surroundings : Surroundings) (m : Machine) :
    (∃ error,
      (doctor platform env lib host manifest options surroundings).run m =
      .error (.config error) m ∧
      ∀ k network,
      (serve platform env lib host manifest options surroundings network).run (m.at k) =
      .error (.config error) (m.at k)) ∨
    ∃ report inspection,
      Returns (doctor platform env lib host manifest options surroundings) m (report, inspection) ∧
    ∀ k network,
      Foretells (serve platform env lib host manifest options surroundings network) network (m.at k)
      report inspection := by
  cases hconfig : options.resolve surroundings with
  | error error =>
      exact .inl ⟨error, (both_refuse hconfig m m).1, fun k => (both_refuse hconfig m (m.at k)).2⟩
  | ok config =>
      right
      obtain ⟨inspection, hinspection, hagrees⟩ :=
        @agrees_of_permitted platform env lib host (storeRoot platform config) manifest h haccepted
          hclient _ (concurrency_ne_zero config) m
      refine ⟨config.doctorReport, inspection, ?_, fun k => foretells_serve hconfig (hagrees k)⟩
      rw [doctor, hconfig]
      exact returns_resolved ((returns_composed hinspection).bind fun _ => returns_pure _ _)

def bareSurroundings : Surroundings :=
  ⟨fun _ => none, fun _ => ⟨none, none⟩, fun _ => none, fun _ => none, fun _ => none⟩

theorem a_bare_start_is_foretold :
    (∃ error,
      (doctor .linux (Artifacts.undisturbed none) smallLibraries willingHost smallManifest
      ⟨none, .default⟩ bareSurroundings).run
        (.start blockedStore) = .error (.config error) (.start blockedStore) ∧
      ∀ k network,
        (serve .linux (Artifacts.undisturbed none) smallLibraries willingHost smallManifest
        ⟨none, .default⟩ bareSurroundings network).run
        ((Machine.start blockedStore).at k) =
          .error (.config error) ((Machine.start blockedStore).at k)) ∨
    ∃ report inspection,
      Returns
        (doctor .linux (Artifacts.undisturbed none) smallLibraries willingHost smallManifest
        ⟨none, .default⟩ bareSurroundings)
        (.start blockedStore) (report, inspection) ∧
      ∀ k network,
        Foretells
        (serve .linux (Artifacts.undisturbed none) smallLibraries willingHost smallManifest
        ⟨none, .default⟩ bareSurroundings
        network) network ((Machine.start blockedStore).at k) report inspection :=
  doctor_foretells_serve (permitted_undisturbed none) accepted_smallManifest rfl smallLibraries
    ⟨none, .default⟩ bareSurroundings
    (.start blockedStore)

end ImpossibleVoice.Server
