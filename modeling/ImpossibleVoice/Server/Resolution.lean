import ImpossibleVoice.Server.Config

namespace ImpossibleVoice.Server.Config

open Lib
open Artifacts (OsString ascii)

inductive Setting
  | artifactRoot
  | bind
  | grpcBind
  | maxRequestBytes
  | queueCapacity
  | maxConcurrentRequests
  | requestTimeoutMs
  | shutdownTimeoutMs
deriving DecidableEq

namespace Setting

abbrev Value : Setting → Type
  | artifactRoot => OsString
  | bind | grpcBind => SocketAddr
  | maxRequestBytes | queueCapacity | maxConcurrentRequests | requestTimeoutMs
  | shutdownTimeoutMs => UInt64

def field : Setting → String
  | artifactRoot => "artifact_root"
  | bind => "bind"
  | grpcBind => "grpc_bind"
  | maxRequestBytes => "max_request_bytes"
  | queueCapacity => "queue_capacity"
  | maxConcurrentRequests => "max_concurrent_requests"
  | requestTimeoutMs => "request_timeout_ms"
  | shutdownTimeoutMs => "shutdown_timeout_ms"

def environmentName : Setting → String
  | artifactRoot => "IMPOSSIBLE_VOICE_ARTIFACT_ROOT"
  | bind => "IMPOSSIBLE_VOICE_BIND"
  | grpcBind => "IMPOSSIBLE_VOICE_GRPC_BIND"
  | maxRequestBytes => "IMPOSSIBLE_VOICE_MAX_REQUEST_BYTES"
  | queueCapacity => "IMPOSSIBLE_VOICE_QUEUE_CAPACITY"
  | maxConcurrentRequests => "IMPOSSIBLE_VOICE_MAX_CONCURRENT_REQUESTS"
  | requestTimeoutMs => "IMPOSSIBLE_VOICE_REQUEST_TIMEOUT_MS"
  | shutdownTimeoutMs => "IMPOSSIBLE_VOICE_SHUTDOWN_TIMEOUT_MS"

def default : (setting : Setting) → setting.Value
  | artifactRoot => ascii "runtime-artifacts"
  | bind => defaultBind
  | grpcBind => defaultGrpcBind
  | maxRequestBytes => 16 * 1024 * 1024
  | queueCapacity => 128
  | maxConcurrentRequests => 4
  | requestTimeoutMs => 60000
  | shutdownTimeoutMs => 10000

def parsed : List Setting :=
  [bind, grpcBind, maxRequestBytes, queueCapacity, maxConcurrentRequests, requestTimeoutMs,
    shutdownTimeoutMs]

end Setting

def PartialConfig.get (values : PartialConfig) : (setting : Setting) → Option setting.Value
  | .artifactRoot => values.artifactRoot
  | .bind => values.bind
  | .grpcBind => values.grpcBind
  | .maxRequestBytes => values.maxRequestBytes
  | .queueCapacity => values.queueCapacity
  | .maxConcurrentRequests => values.maxConcurrentRequests
  | .requestTimeoutMs => values.requestTimeoutMs
  | .shutdownTimeoutMs => values.shutdownTimeoutMs

abbrev Choice := (setting : Setting) → setting.Value

def layered (layers : List PartialConfig) : Choice := fun setting =>
  (layers.findSome? fun layer => layer.get setting).getD setting.default

theorem replace_eq {α : Type} (field higher : Option α) :
    replace field higher = higher.or field := by
  cases higher <;> rfl

theorem get_overlay (low high : PartialConfig) (setting : Setting) :
    (low.overlay high).get setting = (high.get setting).or (low.get setting) := by
  cases setting <;> exact replace_eq _ _

theorem layered_overlay (above : List PartialConfig) (low high : PartialConfig)
    (below : List PartialConfig) :
    layered (above ++ low.overlay high :: below) = layered (above ++ high :: low :: below) := by
  funext setting
  simp only [layered, List.findSome?_append, List.findSome?_cons, get_overlay]
  cases high.get setting <;> cases low.get setting <;> rfl

def boundedBy (maximum : Nat) (value : UInt64) : Bool :=
  value != 0 && decide (value.toNat ≤ maximum)

def timely (millis : UInt64) : Bool :=
  millis != 0 && decide (Duration.fromMillis millis ≤ maxTimeout)

def limitRules (choice : Choice) : List (ConfigError × Bool) :=
  [(⟨"max_request_bytes", "is outside the supported bound"⟩,
    boundedBy Boundary.maxRequestBytesCap (choice .maxRequestBytes)),
    (⟨"queue_capacity", "is outside the supported bound"⟩,
      boundedBy 1000000 (choice .queueCapacity)),
    (⟨"max_concurrent_requests", "is outside the supported bound"⟩,
      boundedBy 1000000 (choice .maxConcurrentRequests)),
    (⟨"request_timeout", "is outside the supported bound"⟩, timely (choice .requestTimeoutMs)),
    (⟨"shutdown_timeout", "is outside the supported bound"⟩, timely (choice .shutdownTimeoutMs))]

/-- The rules, in the order in which they are looked at, each with the error that breaking it
makes. -/
def rules (choice : Choice) : List (ConfigError × Bool) :=
  (⟨"artifact_root", "is malformed"⟩, choice .artifactRoot != []) ::
    (⟨"bind", "must be loopback"⟩, (choice .bind).isLoopback) ::
    (⟨"grpc_bind", "must be distinct and loopback"⟩, (choice .grpcBind).isLoopback &&
      choice .grpcBind != choice .bind) ::
    limitRules choice

def firstBroken : List (ConfigError × Bool) → Option ConfigError
  | [] => none
  | (error, kept) :: rest => if kept = true then firstBroken rest else some error

def ServerLimits.Holds (limits : ServerLimits) (choice : Choice) : Prop :=
  limits.maxRequestBytes.value = choice .maxRequestBytes ∧
    limits.queueCapacity.value = choice .queueCapacity ∧
    limits.maxConcurrentRequests.value = choice .maxConcurrentRequests ∧
    limits.requestTimeout.value = .fromMillis (choice .requestTimeoutMs) ∧
    limits.shutdownTimeout.value = .fromMillis (choice .shutdownTimeoutMs)

structure RuntimeConfig.Holds (config : RuntimeConfig) (choice : Choice) : Prop where
  artifactRoot : config.artifactRoot = choice .artifactRoot
  bind : config.bind = choice .bind
  grpcBind : config.grpcBind = choice .grpcBind
  limits : config.limits.Holds choice

def outside : String := "is outside the supported bound"

/-- A result that is an error just where a rule is broken, and names the first one. -/
def Follows {α : Type} (rules : List (ConfigError × Bool)) (result : Except LimitError α)
    (P : α → Prop) : Prop :=
  match firstBroken rules with
  | none => ∃ a, result = .ok a ∧ P a
  | some error => error.message = outside ∧ result = .error ⟨error.field⟩

theorem Follows.nil {α : Type} {P : α → Prop} {a : α} (h : P a) : Follows [] (.ok a) P :=
  ⟨a, rfl, h⟩

theorem Follows.cons {α β : Type} {P : α → Prop} {Q : β → Prop} {field : String} {kept : Bool}
    {rest : List (ConfigError × Bool)} {first : Except LimitError α} {f : α → Except LimitError β}
    (hkept : kept = true → ∃ a, first = .ok a ∧ P a)
    (hbroken : kept = false → first = .error ⟨field⟩) (hrest : ∀ a, P a → Follows rest (f a) Q) :
    Follows ((⟨field, outside⟩, kept) :: rest) (first >>= f) Q := by
  rw [Follows, firstBroken]
  cases kept with
  | true =>
      obtain ⟨a, rfl, ha⟩ := hkept rfl
      exact hrest a ha
  | false =>
      rw [hbroken rfl]
      exact ⟨rfl, rfl⟩

theorem boundedSize_ok {maximum : Nat} {value : UInt64} (field : String)
    (h : boundedBy maximum value = true) :
    ∃ size : Size maximum, boundedSize value maximum field = .ok size ∧ size.value = value := by
  simp only [boundedBy, Bool.and_eq_true, bne_iff_ne, decide_eq_true_eq] at h
  refine ⟨⟨value, h.1, h.2⟩, ?_, rfl⟩
  rw [boundedSize, dif_neg h.1, dif_pos h.2]

theorem boundedSize_error {maximum : Nat} {value : UInt64} (field : String)
    (h : boundedBy maximum value = false) : boundedSize value maximum field = .error ⟨field⟩ := by
  by_cases hz : value = 0
  · rw [boundedSize, dif_pos hz]
  · rw [boundedSize, dif_neg hz, dif_neg]
    simpa [boundedBy, hz] using h

theorem fromMillis_ne_zero {millis : UInt64} : Duration.fromMillis millis ≠ 0 ↔ millis ≠ 0 := by
  rw [Duration.fromMillis, ne_eq, ne_eq, Nat.mul_eq_zero, ← UInt64.toNat_inj]
  simp

theorem boundedDuration_ok {millis : UInt64} (field : String) (h : timely millis = true) :
    ∃ timeout : Timeout, boundedDuration (.fromMillis millis) field = .ok timeout ∧
    timeout.value = .fromMillis millis := by
  simp only [timely, Bool.and_eq_true, bne_iff_ne, decide_eq_true_eq] at h
  have hkept : Duration.fromMillis millis ≠ 0 ∧ Duration.fromMillis millis ≤ maxTimeout :=
    ⟨fromMillis_ne_zero.mpr h.1, h.2⟩
  refine ⟨⟨_, hkept.1, hkept.2⟩, ?_, rfl⟩
  rw [boundedDuration, dif_pos hkept]

theorem boundedDuration_error {millis : UInt64} (field : String) (h : timely millis = false) :
    boundedDuration (.fromMillis millis) field = .error ⟨field⟩ := by
  refine dif_neg fun hkept => ?_
  rw [timely, Bool.and_eq_false_iff] at h
  rcases h with h | h
  · exact fromMillis_ne_zero.mp hkept.1 (by simpa using h)
  · exact of_decide_eq_false h hkept.2

theorem new_follows (choice : Choice) :
    Follows (limitRules choice)
      (ServerLimits.new (choice .maxRequestBytes) (choice .queueCapacity)
      (choice .maxConcurrentRequests) (.fromMillis (choice .requestTimeoutMs))
      (.fromMillis (choice .shutdownTimeoutMs))) (ServerLimits.Holds · choice) := by
  rw [limitRules, ServerLimits.new]
  refine Follows.cons (boundedSize_ok _) (boundedSize_error _) fun request hrequest => ?_
  refine Follows.cons (boundedSize_ok _) (boundedSize_error _) fun queue hqueue => ?_
  refine Follows.cons (boundedSize_ok _) (boundedSize_error _) fun concurrent hconcurrent => ?_
  refine Follows.cons (boundedDuration_ok _) (boundedDuration_error _) fun timeout htimeout => ?_
  refine Follows.cons (boundedDuration_ok _) (boundedDuration_error _) fun shutdown hshutdown => ?_
  exact Follows.nil ⟨hrequest, hqueue, hconcurrent, htimeout, hshutdown⟩

theorem layered_single (values : PartialConfig) (setting : Setting) :
    layered [values] setting = (values.get setting).getD setting.default := by
  rw [layered, List.findSome?_cons]
  cases values.get setting <;> rfl

theorem resolveLayers_eq (values : PartialConfig) : resolveLayers values =
    validate (layered [values] .bind) (layered [values] .grpcBind) (layered [values] .artifactRoot)
      (ServerLimits.new (layered [values] .maxRequestBytes) (layered [values] .queueCapacity)
        (layered [values] .maxConcurrentRequests) (.fromMillis (layered [values] .requestTimeoutMs))
        (.fromMillis (layered [values] .shutdownTimeoutMs))) := by
  simp only [layered_single]
  rfl

/-- What the values of a layer come to, with the defaults below it. -/
theorem resolveLayers_spec (values : PartialConfig) :
    match firstBroken (rules (layered [values])) with
    | none => ∃ config, resolveLayers values = .ok config ∧ config.Holds (layered [values])
    | some error => resolveLayers values = .error error := by
  rw [resolveLayers_eq]
  generalize layered [values] = choice
  have hlimits := new_follows choice
  rw [Follows] at hlimits
  simp only [rules, firstBroken]
  by_cases hroot : choice .artifactRoot = []
  · rw [if_neg (by simp [hroot]), validate, dif_pos hroot]
  · rw [if_pos (by simpa using hroot)]
    by_cases hbind : (choice .bind).isLoopback = true
    · rw [if_pos hbind]
      by_cases hgrpc : (choice .grpcBind).isLoopback = true ∧ choice .grpcBind ≠ choice .bind
      · rw [if_pos (by simpa using hgrpc)]
        cases hbroken : firstBroken (limitRules choice) with
        | none =>
            rw [hbroken] at hlimits
            obtain ⟨limits, hok, hholds⟩ := hlimits
            refine ⟨⟨choice .bind, choice .grpcBind, limits, choice .artifactRoot, hroot, hbind,
              hgrpc.1, hgrpc.2⟩, ?_,
              rfl, rfl, rfl, hholds⟩
            rw [validate, dif_neg hroot, dif_pos hbind, dif_pos hgrpc, hok]
        | some error =>
            rw [hbroken] at hlimits
            rw [validate, dif_neg hroot, dif_pos hbind, dif_pos hgrpc, hlimits.2]
            rw [← show error.message = "is outside the supported bound" from hlimits.1]
      · rw [if_neg (by simpa using hgrpc)]
        simp only
        rw [validate, dif_neg hroot, dif_pos hbind, dif_neg hgrpc]
    · rw [if_neg hbind]
      simp only
      rw [validate, dif_neg hroot, dif_neg hbind]

def Surroundings.reading {α : Type} (host : Surroundings) (parse : Text → Option α)
    (name : String) : Option (Option α) :=
  match host.get name with
  | none => some none
  | some value => ((toStr value).bind parse).map some

/-- What a variable says of its setting: nothing at all where it is malformed. -/
def Surroundings.raw (host : Surroundings) : (setting : Setting) → Option (Option setting.Value)
  | .artifactRoot => some (host.get Setting.artifactRoot.environmentName)
  | .bind => host.reading host.parseAddress Setting.bind.environmentName
  | .grpcBind => host.reading host.parseAddress Setting.grpcBind.environmentName
  | .maxRequestBytes => host.reading host.parseNumber Setting.maxRequestBytes.environmentName
  | .queueCapacity => host.reading host.parseNumber Setting.queueCapacity.environmentName
  | .maxConcurrentRequests =>
      host.reading host.parseNumber Setting.maxConcurrentRequests.environmentName
  | .requestTimeoutMs => host.reading host.parseNumber Setting.requestTimeoutMs.environmentName
  | .shutdownTimeoutMs => host.reading host.parseNumber Setting.shutdownTimeoutMs.environmentName

theorem parseEnvironment_eq {α : Type} (host : Surroundings) (parse : Text → Option α)
    (name field : String) :
    parseEnvironment host parse name field =
      orFail (host.reading parse name) ⟨field, "is malformed"⟩ := by
  rw [parseEnvironment, Surroundings.reading]
  cases host.get name with
  | none => rfl
  | some value =>
      simp only
      cases toStr value with
      | none => rfl
      | some text =>
          simp only [Option.bind_some]
          cases parse text <;> rfl

/-- A result that is an error just where a variable is malformed, and names the first one. -/
def Surroundings.Follows {α : Type} (host : Surroundings) (settings : List Setting)
    (result : Except ConfigError α) (P : α → Prop) : Prop :=
  match settings.find? fun setting => (host.raw setting).isNone with
  | some setting => result = .error ⟨setting.field, "is malformed"⟩
  | none => ∃ a, result = .ok a ∧ P a

theorem Surroundings.Follows.cons {α : Type} {host : Surroundings} {setting : Setting}
    {settings : List Setting} {P : α → Prop} {f : Option setting.Value → Except ConfigError α}
    (h : ∀ value, host.raw setting = some value → host.Follows settings (f value) P) :
    host.Follows (setting :: settings)
      (orFail (host.raw setting) ⟨setting.field, "is malformed"⟩ >>= f) P := by
  rw [Follows, List.find?_cons]
  cases hraw : host.raw setting with
  | none => rfl
  | some value => exact h value hraw

theorem readEnvironment_follows (host : Surroundings) :
    host.Follows Setting.parsed (readEnvironment host) fun environment =>
      ∀ setting, host.raw setting = some (environment.get setting) := by
  rw [readEnvironment, Setting.parsed]
  simp only [parseEnvironment_eq]
  refine .cons fun bind hbind => ?_
  refine .cons fun grpcBind hgrpcBind => ?_
  refine .cons fun maxRequestBytes hmaxRequestBytes => ?_
  refine .cons fun queueCapacity hqueueCapacity => ?_
  refine .cons fun maxConcurrentRequests hmaxConcurrentRequests => ?_
  refine .cons fun requestTimeoutMs hrequestTimeoutMs => ?_
  refine .cons fun shutdownTimeoutMs hshutdownTimeoutMs => ?_
  refine ⟨_, rfl, fun setting => ?_⟩
  cases setting with
  | artifactRoot => rfl
  | bind => exact hbind
  | grpcBind => exact hgrpcBind
  | maxRequestBytes => exact hmaxRequestBytes
  | queueCapacity => exact hqueueCapacity
  | maxConcurrentRequests => exact hmaxConcurrentRequests
  | requestTimeoutMs => exact hrequestTimeoutMs
  | shutdownTimeoutMs => exact hshutdownTimeoutMs

theorem field_of_fileLayer {options : ServerOptions} {host : Surroundings} {error : ConfigError}
    (h : fileLayer options host = .error error) : error.field = "config" := by
  rw [fileLayer] at h
  split at h
  · cases h
  · rw [readFile] at h
    split at h
    · cases h
      rfl
    · split at h
      · cases h
        rfl
      · split at h
        · cases h
          rfl
        · next text _ =>
            cases hparse : host.parseToml text with
            | none =>
                rw [hparse] at h
                cases h
                rfl
            | some values =>
                rw [hparse] at h
                cases h

structure DoctorReport.Tells (report : DoctorReport) (choice : Choice) : Prop where
  maxRequestBytes : report.maxRequestBytes = (choice .maxRequestBytes).toNat
  queueCapacity : report.queueCapacity = (choice .queueCapacity).toNat
  maxConcurrentRequests : report.maxConcurrentRequests = (choice .maxConcurrentRequests).toNat
  requestTimeoutMs : report.requestTimeoutMs = (choice .requestTimeoutMs).toNat
  shutdownTimeoutMs : report.shutdownTimeoutMs = (choice .shutdownTimeoutMs).toNat

theorem asMillis_fromMillis (millis : UInt64) :
    (Duration.fromMillis millis).asMillis = millis.toNat :=
  Nat.mul_div_cancel _ (by decide)

theorem RuntimeConfig.Holds.tells {config : RuntimeConfig} {choice : Choice}
    (h : config.Holds choice) : config.doctorReport.Tells choice := by
  obtain ⟨hrequest, hqueue, hconcurrent, htimeout, hshutdown⟩ := h.limits
  refine ⟨congrArg UInt64.toNat hrequest, congrArg UInt64.toNat hqueue,
    congrArg UInt64.toNat hconcurrent, ?_, ?_⟩
  · rw [doctorReport, htimeout, asMillis_fromMillis]
  · rw [doctorReport, hshutdown, asMillis_fromMillis]

/-- Every setting comes from the highest layer that has it: the command line, the
environment, the file, the default. What is malformed in the file or in a variable
is refused whatever is above it; else the first rule that the chosen values break
is the error; and if they break none, the configuration holds just them. -/
theorem settings_come_from_the_highest_layer (options : ServerOptions) (host : Surroundings) :
    match fileLayer options host with
    | .error error => error.field = "config" ∧ options.resolve host = .error error
    | .ok file =>
      match Setting.parsed.find? fun setting => (host.raw setting).isNone with
      | some setting => options.resolve host = .error ⟨setting.field, "is malformed"⟩
      | none =>
          ∃ environment : PartialConfig,
            (∀ setting, host.raw setting = some (environment.get setting)) ∧
        match firstBroken (rules (layered [options.cli, environment, file])) with
        | some error => options.resolve host = .error error
        | none =>
            ∃ config, options.resolve host = .ok config ∧
              config.Holds (layered [options.cli, environment, file]) ∧
            config.doctorReport.Tells (layered [options.cli, environment, file]) := by
  cases hfile : fileLayer options host with
  | error error =>
      refine ⟨field_of_fileLayer hfile, ?_⟩
      rw [ServerOptions.resolve, hfile]
      rfl
  | ok file =>
      have henvironment := readEnvironment_follows host
      rw [Surroundings.Follows] at henvironment
      simp only
      cases hmalformed : Setting.parsed.find? fun setting => (host.raw setting).isNone with
      | some setting =>
          rw [hmalformed] at henvironment
          simp only
          rw [ServerOptions.resolve, hfile, henvironment]
          rfl
      | none =>
          rw [hmalformed] at henvironment
          obtain ⟨environment, hread, hraw⟩ := henvironment
          refine ⟨environment, hraw, ?_⟩
          have hresolve : options.resolve host =
              resolveLayers ((file.overlay environment).overlay options.cli) := by
            rw [ServerOptions.resolve, hfile, hread]
            rfl
          have hlayers : layered [(file.overlay environment).overlay options.cli] =
              layered [options.cli, environment, file] := by
            exact (layered_overlay [] _ options.cli []).trans
              (layered_overlay [options.cli] file environment [])
          have hspec := resolveLayers_spec ((file.overlay environment).overlay options.cli)
          rw [hlayers] at hspec
          rw [hresolve]
          cases hbroken : firstBroken (rules (layered [options.cli, environment, file])) with
          | none =>
              rw [hbroken] at hspec
              obtain ⟨config, hok, hholds⟩ := hspec
              exact ⟨config, hok, hholds, hholds.tells⟩
          | some error =>
              rw [hbroken] at hspec
              exact hspec

end ImpossibleVoice.Server.Config
